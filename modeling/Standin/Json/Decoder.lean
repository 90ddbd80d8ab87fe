import Standin.Json.Reader

/-!
# Taking JSON values apart

A `Decoder` reads a value of one kind from JSON. It is told how many more levels of arrays and
objects it may enter, so a value nested too deeply is refused; what is not looked at may be nested
at will.

Records are objects, or arrays of their fields in order. Alternatives are objects with one member,
the tag, or the tag alone if nothing belongs to it.
-/

namespace Standin

/-- Reads a value, entering at most the given number of levels. -/
def Decoder (α : Type) : Type :=
  Nat → Json → Option α

/-- How deep the arrays and objects of a text may be nested. -/
def Json.maxDepth : Nat := 127

/-- The fields of a record by name. In an object, a field may stand anywhere but only once, and all
else is skipped; in an array, fields at the end may be left out. -/
def Json.fields? (names : List String) : Json → Option (List (Option Json))
  | .object members =>
    if names.all fun n => members.countP (·.1 = n) ≤ 1 then
      some (names.map fun n => members.lookup n)
    else none
  | .array items =>
    if items.length ≤ names.length then
      some (items.map some ++ List.replicate (names.length - items.length) none)
    else none
  | _ => none

namespace Decoder

variable {α : Type}

def string : Decoder String
  | _, .string s => some s
  | _, _ => none

def bool : Decoder Bool
  | _, .bool b => some b
  | _, _ => none

/-- An integer from `lo` to below `hi`. -/
def int (lo hi : Int) : Decoder Int
  | _, .int n => if lo ≤ n ∧ n < hi then some n else none
  | _, _ => none

/-- A natural below `bound`. -/
def nat (bound : Nat) : Decoder Nat :=
  fun room j => (int 0 bound room j).map Int.toNat

def uint8 : Decoder UInt8 :=
  fun room j => (nat UInt8.size room j).map UInt8.ofNat

def uint16 : Decoder UInt16 :=
  fun room j => (nat UInt16.size room j).map UInt16.ofNat

def int32 : Decoder Int32 :=
  fun room j => (int (-Nat.pow 2 31) (Nat.pow 2 31) room j).map Int32.ofInt

def int64 : Decoder Int64 :=
  fun room j => (int (-Nat.pow 2 63) (Nat.pow 2 63) room j).map Int64.ofInt

def list (d : Decoder α) : Decoder (List α)
  | room + 1, .array items => items.mapM (d room)
  | _, _ => none

/-- A value or `null`. -/
def optional (d : Decoder α) : Decoder (Option α)
  | _, .null => some none
  | room, j => (d room j).map some

def map {β : Type} (f : α → β) (d : Decoder α) : Decoder β :=
  fun room j => (d room j).map f

/-- A field that must be there. -/
def required (d : Decoder α) (room : Nat) : Option Json → Option α
  | some j => d room j
  | none => none

/-- A field that is `x` when it is left out. -/
def withDefault (x : α) (d : Decoder α) (room : Nat) : Option Json → Option α
  | some j => d room j
  | none => some x

/-- A record, put together from its fields. -/
def record (names : List String) (build : Nat → List (Option Json) → Option α) : Decoder α
  | room + 1, j => (j.fields? names).bind (build room)
  | 0, _ => none

/-- A tag to which nothing belongs. -/
def keyword (table : String → Option α) : Decoder α
  | _, .string tag => table tag
  | _ + 1, .object [(tag, .null)] => table tag
  | _, _ => none

/-- A tag with what belongs to it. -/
def tagged (payload : String → Option (Decoder α)) : Decoder α
  | room + 1, .object [(tag, j)] => (payload tag).bind fun d => d room j
  | _, _ => none

/-- The first of two readings that succeeds. -/
def orElse (d e : Decoder α) : Decoder α :=
  fun room j => (d room j).or (e room j)

/-- Reads a whole text. -/
def ofText? (d : Decoder α) (s : String) : Option α :=
  (Json.parse? s).bind (d Json.maxDepth)

end Decoder

end Standin
