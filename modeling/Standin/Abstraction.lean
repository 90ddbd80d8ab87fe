import Standin.Draft
import Standin.Text.Blank

/-!
# Abstractions of the heap

A stand-in keeps every object that it gets or makes in one place and takes every object that it
needs from there. An abstraction says what the place is: a static field shared by the whole library,
or a variable of each body.
-/

namespace Standin

inductive AbstractionKind
  | shared
  | perUnit
deriving DecidableEq, Repr

namespace AbstractionKind

def text : AbstractionKind → String
  | shared => "shared"
  | perUnit => "per-unit"

def all : List AbstractionKind := [shared, perUnit]

def ofText? (s : String) : Option AbstractionKind :=
  all.find? fun k => k.text = s

/-- The kind that a text names, with blanks allowed around it, or a message. -/
def parse (s : String) : Except String AbstractionKind :=
  match ofText? (Text.trimmed s) with
  | some k => .ok k
  | none =>
    .error ("unknown abstraction `" ++ Text.trimmed s ++ "` (expected `shared` or `per-unit`)")

end AbstractionKind

inductive Abstraction
  /-- One place for the whole library. -/
  | shared (field : FieldRef)
  /-- One place for each body. -/
  | perUnit
deriving DecidableEq, Repr

namespace Abstraction

def kind : Abstraction → AbstractionKind
  | shared _ => .shared
  | perUnit => .perUnit

/-- The variable of the body that is the place itself, and whether it is new. -/
def slot (d : Draft) : Draft × VarId × Bool :=
  match d.representative with
  | some x => (d, x, false)
  | none =>
    let (d, x) := d.newVar .object
    ({ d with representative := some x }, x, true)

/-- A variable that holds an object of the place. It is set when it is first asked for: to the value
of the shared field, or to `null` if nothing is stored in the body's own place yet. -/
def representative (a : Abstraction) (d : Draft) : Draft × VarId :=
  match a with
  | shared f =>
    match d.representative with
    | some x => (d, x)
    | none =>
      let (d, x) := d.loadField f
      ({ d with representative := some x }, x)
  | perUnit =>
    let (d, x, isNew) := slot d
    (if isNew then d.push (.assign (.var x) (.use (.const .null))) else d, x)

/-- Puts the value of a variable into the place. -/
def store (a : Abstraction) (d : Draft) (x : VarId) : Draft :=
  match a with
  | shared f =>
    let d := d.storeField f (.var x)
    { d with flows := d.flows ++ (d.typeOf? x).toList }
  | perUnit =>
    let (d, y, _) := slot d
    d.push (.assign (.var y) (.use (.var x)))

/-- An object of the place, seen as one of type `t`. -/
def representativeAs (a : Abstraction) (d : Draft) (t : ValueType) : Draft × VarId :=
  let (d, x) := a.representative d
  d.castTo x t

/-- A value of type `t`: a constant, or an object of the place. -/
def valueOf (a : Abstraction) (d : Draft) (t : ValueType) : Draft × Operand :=
  match t with
  | .primitive p => (d, .const p.one)
  | _ =>
    let (d, x) := a.representativeAs d t
    (d, .var x)

/-- A value for each parameter. -/
def arguments (a : Abstraction) (d : Draft) : List ValueType → Draft × List Operand
  | [] => (d, [])
  | t :: ts =>
    let (d, v) := a.valueOf d t
    let (d, vs) := a.arguments d ts
    (d, v :: vs)

end Abstraction

/-- The shared field of no particular library. -/
def FieldRef.sharedSet : FieldRef := ⟨"placebo.Library", "set", .object⟩

/-- The guard of no particular library. -/
def FieldRef.guard : FieldRef := ⟨"placebo.Library", "guard", .primitive .int⟩

end Standin
