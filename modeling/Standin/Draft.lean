import Standin.SynthesisError

/-!
# Drafts

A body that is being written from its start to its end. A draft remembers what a body does only
once: a cast to each type, the initialization of each class, the load of the guard, and the variable
that stands for all objects. Its variables have names of no meaning; tidying gives them their own.
-/

namespace Standin

structure Draft where
  declared : List Variable
  code : List Instruction
  /-- The variable that holds the result of the cast to a type. -/
  casts : List (ValueType × VarId)
  /-- The classes whose static initializer has been called. -/
  initialized : List String
  /-- The variable that the guard has been loaded into. -/
  guard : Option VarId
  /-- The variable that stands for all objects. -/
  representative : Option VarId
  /-- The types of the variables stored into the shared field. -/
  flows : List ValueType
deriving DecidableEq, Repr

namespace Draft

def empty : Draft := ⟨[], [], [], [], none, none, []⟩

def body (d : Draft) : Body :=
  ⟨d.declared, d.code, []⟩

def typeOf? (d : Draft) (x : VarId) : Option ValueType :=
  d.declared[x]?.map Variable.type

def newVar (d : Draft) (t : ValueType) : Draft × VarId :=
  let x := d.declared.length
  ({ d with declared := d.declared ++ [⟨"$t" ++ x.repr, t⟩] }, x)

def push (d : Draft) (i : Instruction) : Draft :=
  { d with code := d.code ++ [i] }

/-- A new variable with the value of an expression. -/
def assignNew (d : Draft) (t : ValueType) (e : Expr) : Draft × VarId :=
  let (d, x) := d.newVar t
  (d.push (.assign (.var x) e), x)

/-- A variable of type `t` with the value of `x`: `x` itself if it has this type, else the variable
of the one cast to `t`. -/
def castTo (d : Draft) (x : VarId) (t : ValueType) : Draft × VarId :=
  if d.typeOf? x = some t then (d, x)
  else
    match d.casts.lookup t with
    | some y => (d, y)
    | none =>
      let (d, y) := d.assignNew t (.cast (.var x) t)
      ({ d with casts := d.casts ++ [(t, y)] }, y)

end Draft

/-- An array of length one in every dimension. -/
def ValueType.arrayAllocation (t : ValueType) : Expr :=
  .newArray t (List.replicate t.dimensions.toNat (.const (.int 1)))

/-- The expression that allocates a value of a type. -/
def ValueType.allocation (t : ValueType) : Except SynthesisError Expr :=
  match t with
  | .reference c => .ok (.new c)
  | .array _ n =>
    if n = 0 then .error (.unresolvableType t .noDimensions) else .ok t.arrayAllocation
  | .primitive _ => .error (.unresolvableType t .primitive)

namespace Draft

/-- A new variable with a newly allocated value, or why there is none. -/
def allocate (d : Draft) (t : ValueType) : Draft × Except SynthesisError VarId :=
  match t.allocation with
  | .error error => (d, .error error)
  | .ok e =>
    let (d, x) := d.assignNew t e
    (d, .ok x)

def loadField (d : Draft) (f : FieldRef) : Draft × VarId :=
  d.assignNew f.type (.staticField f)

def storeField (d : Draft) (f : FieldRef) (value : Operand) : Draft :=
  d.push (.assign (.staticField f) (.use value))

/-- Notes that a class is initialized, and tells whether it was not so before. -/
def markInitialized (d : Draft) (className : String) : Draft × Bool :=
  if className ∈ d.initialized then (d, false)
  else ({ d with initialized := d.initialized ++ [className] }, true)

/-- The variable of the guard, which is loaded when it is first asked for. -/
def guardVar (d : Draft) (f : FieldRef) : Draft × VarId :=
  match d.guard with
  | some x => (d, x)
  | none =>
    let (d, x) := d.loadField f
    ({ d with guard := some x }, x)

/-- An instruction that is passed over if the guard is not zero. -/
def pushGuarded (d : Draft) (f : FieldRef) (i : Instruction) : Draft :=
  let (d, x) := d.guardVar f
  ((d.push (.branch (.var x) (d.code.length + 2))).push i).push .nop

/-- A call of a static initializer, unless the class is initialized. -/
def callInitializer (d : Draft) (className : String) (initializer : MethodRef) : Draft :=
  let (d, isFirst) := d.markInitialized className
  if isFirst then d.push (.invoke ⟨.static, initializer, none, []⟩) else d

end Draft

/-- The constant that stands for all values of a primitive type. -/
def Primitive.one : Primitive → Constant
  | long => .long 1
  | float => .float .one
  | double => .double .one
  | _ => .int 1

end Standin
