import Standin.MethodRef
import Standin.ValueType.Parser

/-!
# Reading method signatures

A signature such as `<a.List: void add(int,a.Item[])>`. The class ends at the first colon and blank,
the result type at the next blank, the name at the first opening parenthesis, and the parameters at
the closing parenthesis, which is the last character.
-/

namespace Standin

/-- A text that is no method signature. -/
structure SignatureError where
  text : String
deriving DecidableEq, Repr

def SignatureError.message (e : SignatureError) : String :=
  "invalid method signature: " ++ e.text

namespace MethodRef

/-- `s` without `open` at its start and `close` at its end. -/
def unwrap? (opening closing : Char) (s : List Char) : Option (List Char) :=
  match s with
  | [] => none
  | c :: rest =>
    if c = opening ∧ rest.getLast? = some closing then some rest.dropLast else none

/-- The types between the parentheses, none if all of it is blank. -/
def parseParams? (s : List Char) : Option (List ValueType) :=
  if (Text.trim s).isEmpty then some []
  else (Text.splitOn ',' s).mapM fun piece => (ValueType.parse (String.ofList piece)).toOption

/-- The method that a signature names. -/
def parse? (s : String) : Option MethodRef := do
  let inner ← unwrap? '<' '>' (Text.trim s.toList)
  let (className, rest) ← Text.splitAt? [':', ' '] inner
  let (result, rest) ← Text.splitAt? [' '] (Text.trim rest)
  let (name, rest) ← Text.splitAt? ['('] rest
  let params ← if rest.getLast? = some ')' then some rest.dropLast else none
  let className := Text.trim className
  let name := Text.trim name
  if className.isEmpty || name.isEmpty then none
  else
    let result ← (ResultType.parse (String.ofList result)).toOption
    let params ← parseParams? params
    return ⟨String.ofList className, String.ofList name, params, result⟩

def parse (s : String) : Except SignatureError MethodRef :=
  match parse? s with
  | some m => .ok m
  | none => .error ⟨s⟩

end MethodRef

end Standin
