import Standin.Text.Blank
import Standin.ValueType

/-!
# Reading types

A type is written as a name and a pair of brackets for each dimension, with blanks allowed around it
and between the pairs.
-/

namespace Standin

/-- Why a text is no type. -/
inductive TypeError
  | empty
  | void
  | invalid (text : String)
deriving DecidableEq, Repr

def TypeError.message : TypeError → String
  | empty => "empty type name"
  | void => "`void` is not a value type"
  | invalid text => "invalid type name: " ++ text

namespace ValueType

/-- Takes the bracket pairs off the end of a text, which is given in reverse, with the blanks around
them: how many there are, and the rest in reverse. -/
def stripPairs : List Char → Nat × List Char
  | ']' :: '[' :: rest =>
    let (n, base) := stripPairs rest
    (n + 1, base)
  | c :: rest => if Text.isBlank c then stripPairs rest else (0, c :: rest)
  | [] => (0, [])

/-- Whether a character may stand in the name of a type. -/
def isNameChar (c : Char) : Bool :=
  !Text.isBlank c && c != '[' && c != ']' && c != '<' && c != '>'

/-- The primitive or the class of that name. -/
def ofName (name : String) : ValueType :=
  match Primitive.ofKeyword? name with
  | some p => primitive p
  | none => reference name

/-- The type that a text names. -/
def parse (s : String) : Except TypeError ValueType :=
  let chars := Text.trim s.toList
  if chars.isEmpty then .error .empty
  else
    let (n, reversed) := stripPairs chars.reverse
    let name := String.ofList reversed.reverse
    if 255 < n then .error (.invalid s)
    else if name = "void" then .error .void
    else if name.isEmpty || !reversed.all isNameChar then .error (.invalid s)
    else if n = 0 then .ok (ofName name)
    else .ok (arrayOf (ofName name) (UInt8.ofNat n))

end ValueType

/-- The result type that a text names: nothing, or a type. -/
def ResultType.parse (s : String) : Except TypeError ResultType :=
  if Text.trimmed s = "void" then .ok .void
  else (ValueType.parse s).map .value

end Standin
