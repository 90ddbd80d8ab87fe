/-!
# Types of values

The types that variables, fields, parameters and results have: primitives, classes by name and
arrays (`ValueType`), and what a method gives back (`ResultType`), with their written forms.
-/

namespace Standin

inductive Primitive
  | boolean
  | byte
  | char
  | short
  | int
  | long
  | float
  | double
deriving DecidableEq, Repr

namespace Primitive

def all : List Primitive :=
  [boolean, byte, char, short, int, long, float, double]

def keyword : Primitive → String
  | boolean => "boolean"
  | byte => "byte"
  | char => "char"
  | short => "short"
  | int => "int"
  | long => "long"
  | float => "float"
  | double => "double"

def ofKeyword? (word : String) : Option Primitive :=
  all.find? fun p => p.keyword = word

def isFloating : Primitive → Bool
  | float | double => true
  | _ => false

/-- The place in the order of types. -/
def rank : Primitive → Nat
  | boolean => 0
  | byte => 1
  | char => 2
  | short => 3
  | int => 4
  | long => 5
  | float => 6
  | double => 7

end Primitive

/-- The type of a value. An array has a base and a number of dimensions; `arrayOf` keeps bases free
of arrays, but a model may hold any. -/
inductive ValueType
  | primitive (p : Primitive)
  | reference (className : String)
  | array (base : ValueType) (dimensions : UInt8)
deriving DecidableEq, Repr

namespace ValueType

/-- The root of the class hierarchy. -/
def object : ValueType := reference "java.lang.Object"

/-- An array over `base` with further dimensions, at most 255 in all. -/
def arrayOf (base : ValueType) (dimensions : UInt8) : ValueType :=
  match base with
  | array inner n => array inner (UInt8.ofNat (min 255 (n.toNat + dimensions.toNat)))
  | other => array other dimensions

/-- Whether values of the type are references. -/
def isReferenceLike : ValueType → Bool
  | primitive _ => false
  | _ => true

def className? : ValueType → Option String
  | reference c => some c
  | _ => none

def dimensions : ValueType → UInt8
  | array _ n => n
  | _ => 0

/-- An array is written as its base and a pair of brackets for each dimension. -/
def text : ValueType → String
  | primitive p => p.keyword
  | reference c => c
  | array base n => base.text ++ String.join (List.replicate n.toNat "[]")

/-- Primitives come before classes and classes before arrays. Class names are compared by code
points, arrays by their bases and then their dimensions. -/
def cmp : ValueType → ValueType → Ordering
  | primitive p, primitive q => compare p.rank q.rank
  | primitive _, _ => .lt
  | reference _, primitive _ => .gt
  | reference c, reference d => compare c d
  | reference _, array _ _ => .lt
  | array a m, array b n => (cmp a b).then (compare m n)
  | array _ _, _ => .gt

/-- The types in increasing order. -/
def sorted (ts : List ValueType) : List ValueType :=
  ts.mergeSort fun a b => (cmp a b).isLE

end ValueType

/-- What a method gives back. -/
inductive ResultType
  | void
  | value (type : ValueType)
deriving DecidableEq, Repr

namespace ResultType

def type? : ResultType → Option ValueType
  | void => none
  | value t => some t

def isReferenceLike (r : ResultType) : Bool :=
  r.type?.any ValueType.isReferenceLike

def text : ResultType → String
  | void => "void"
  | value t => t.text

end ResultType

end Standin
