import Standin.Decimal.Binary
import Standin.MethodRef

/-!
# Method bodies

A body is a list of variables, a list of instructions and the exception handlers over ranges of
instructions. Variables are meant by their position in the list and branch targets by the position
of an instruction; neither has to exist.
-/

namespace Standin

/-- A variable by its position in the body's list. -/
abbrev VarId := Nat

structure Variable where
  name : String
  type : ValueType
deriving DecidableEq, Repr

inductive Constant
  | int (value : Int32)
  | long (value : Int64)
  | float (value : Binary32)
  | double (value : Binary64)
  | string (value : String)
  | classOf (type : ValueType)
  | null
deriving DecidableEq, Repr

/-- The type of a constant; `null` has none. -/
def Constant.type? : Constant → Option ValueType
  | int _ => some (.primitive .int)
  | long _ => some (.primitive .long)
  | float _ => some (.primitive .float)
  | double _ => some (.primitive .double)
  | string _ => some (.reference "java.lang.String")
  | classOf _ => some (.reference "java.lang.Class")
  | null => none

inductive Operand
  | var (x : VarId)
  | const (c : Constant)
deriving DecidableEq, Repr

namespace Operand

def var? : Operand → Option VarId
  | var x => some x
  | const _ => none

def vars : Operand → List VarId
  | var x => [x]
  | const _ => []

def mapVars (f : VarId → VarId) : Operand → Operand
  | var x => var (f x)
  | const c => const c

end Operand

/-- How the method that a call runs is found. -/
inductive Dispatch
  | static
  | special
  | interface
  | virtual
  /-- Settled by a bootstrap method at run time. -/
  | dynamic
deriving DecidableEq, Repr

def Dispatch.keyword : Dispatch → String
  | static => "staticinvoke"
  | special => "specialinvoke"
  | interface => "interfaceinvoke"
  | virtual => "virtualinvoke"
  | dynamic => "dynamicinvoke"

structure Invocation where
  dispatch : Dispatch
  callee : MethodRef
  receiver : Option VarId
  args : List Operand
deriving DecidableEq, Repr

namespace Invocation

/-- The receiver comes before the arguments. -/
def vars (i : Invocation) : List VarId :=
  i.receiver.toList ++ i.args.flatMap Operand.vars

def mapVars (f : VarId → VarId) (i : Invocation) : Invocation :=
  { i with receiver := i.receiver.map f, args := i.args.map (Operand.mapVars f) }

end Invocation

inductive BinaryOp
  | add
  | sub
  | mul
  | div
  | rem
  | and
  | or
  | xor
  | shl
  | shr
  | ushr
  | cmp
  | eq
  | ne
  | lt
  | le
  | gt
  | ge
deriving DecidableEq, Repr

def BinaryOp.symbol : BinaryOp → String
  | add => "+"
  | sub => "-"
  | mul => "*"
  | div => "/"
  | rem => "%"
  | and => "&"
  | or => "|"
  | xor => "^"
  | shl => "<<"
  | shr => ">>"
  | ushr => ">>>"
  | cmp => "cmp"
  | eq => "=="
  | ne => "!="
  | lt => "<"
  | le => "<="
  | gt => ">"
  | ge => ">="

/-- The right-hand side of an assignment. -/
inductive Expr
  | use (operand : Operand)
  | new (className : String)
  /-- An allocation of the array type `type`; there may be fewer lengths than dimensions. -/
  | newArray (type : ValueType) (lengths : List Operand)
  | cast (operand : Operand) (target : ValueType)
  | staticField (field : FieldRef)
  | instanceField (base : VarId) (field : FieldRef)
  | arrayElement (base : VarId) (index : Operand)
  | invoke (call : Invocation)
  | binary (op : BinaryOp) (left right : Operand)
deriving DecidableEq, Repr

namespace Expr

def isArrayElement : Expr → Bool
  | arrayElement _ _ => true
  | _ => false

def vars : Expr → List VarId
  | use o => o.vars
  | new _ => []
  | newArray _ lengths => lengths.flatMap Operand.vars
  | cast o _ => o.vars
  | staticField _ => []
  | instanceField base _ => [base]
  | arrayElement base index => base :: index.vars
  | invoke call => call.vars
  | binary _ left right => left.vars ++ right.vars

def mapVars (f : VarId → VarId) : Expr → Expr
  | use o => use (o.mapVars f)
  | new c => new c
  | newArray t lengths => newArray t (lengths.map (Operand.mapVars f))
  | cast o t => cast (o.mapVars f) t
  | staticField fd => staticField fd
  | instanceField base fd => instanceField (f base) fd
  | arrayElement base index => arrayElement (f base) (index.mapVars f)
  | invoke call => invoke (call.mapVars f)
  | binary op left right => binary op (left.mapVars f) (right.mapVars f)

end Expr

/-- The left-hand side of an assignment. -/
inductive Place
  | var (x : VarId)
  | arrayElement (base : VarId) (index : Operand)
  | staticField (field : FieldRef)
  | instanceField (base : VarId) (field : FieldRef)
deriving DecidableEq, Repr

namespace Place

def isArrayElement : Place → Bool
  | arrayElement _ _ => true
  | _ => false

def vars : Place → List VarId
  | var x => [x]
  | arrayElement base index => base :: index.vars
  | staticField _ => []
  | instanceField base _ => [base]

def mapVars (f : VarId → VarId) : Place → Place
  | var x => var (f x)
  | arrayElement base index => arrayElement (f base) (index.mapVars f)
  | staticField fd => staticField fd
  | instanceField base fd => instanceField (f base) fd

end Place

/-- A value that is there when a method or a handler is entered. -/
inductive Incoming
  | this
  | parameter (index : UInt16)
  | caughtException
deriving DecidableEq, Repr

inductive Instruction
  /-- Gives an incoming value its variable. -/
  | bind (dest : VarId) (source : Incoming)
  | assign (dest : Place) (value : Expr)
  /-- A call whose result is not kept. -/
  | invoke (call : Invocation)
  | throw (value : Operand)
  /-- Goes on at `target` if the condition is not zero. -/
  | branch (condition : Operand) (target : Nat)
  | goto (target : Nat)
  | ret (value : Option Operand)
  | nop
deriving DecidableEq, Repr

namespace Instruction

def isBind : Instruction → Bool
  | bind _ _ => true
  | _ => false

def isNop : Instruction → Bool
  | nop => true
  | _ => false

def target? : Instruction → Option Nat
  | branch _ t => some t
  | goto t => some t
  | _ => none

/-- The same instruction with another branch target. -/
def mapTarget (f : Nat → Nat) : Instruction → Instruction
  | branch c t => branch c (f t)
  | goto t => goto (f t)
  | i => i

/-- The variables that the instruction writes or reads, what it writes first. -/
def vars : Instruction → List VarId
  | bind dest _ => [dest]
  | assign dest value => dest.vars ++ value.vars
  | invoke call => call.vars
  | throw value => value.vars
  | branch condition _ => condition.vars
  | goto _ => []
  | ret value => value.elim [] Operand.vars
  | nop => []

def mapVars (f : VarId → VarId) : Instruction → Instruction
  | bind dest source => bind (f dest) source
  | assign dest value => assign (dest.mapVars f) (value.mapVars f)
  | invoke call => invoke (call.mapVars f)
  | throw value => throw (value.mapVars f)
  | branch condition t => branch (condition.mapVars f) t
  | goto t => goto t
  | ret value => ret (value.map (Operand.mapVars f))
  | nop => nop

/-- The call that the instruction makes, as a statement or for its result. -/
def invocation? : Instruction → Option Invocation
  | invoke call => some call
  | assign _ (.invoke call) => some call
  | _ => none

end Instruction

/-- Exceptions of a class that arise from `start` to before `stop` are handled at `entry`. -/
structure Handler where
  exception : String
  start : Nat
  stop : Nat
  entry : Nat
deriving DecidableEq, Repr

structure Body where
  declared : List Variable
  code : List Instruction
  handlers : List Handler
deriving DecidableEq, Repr

namespace Body

def empty : Body := ⟨[], [], []⟩

def typeOf? (b : Body) (x : VarId) : Option ValueType :=
  b.declared[x]?.map Variable.type

def operandType? (b : Body) : Operand → Option ValueType
  | .var x => b.typeOf? x
  | .const c => c.type?

/-- The variable that the receiver of the method is bound to first. -/
def receiver? (b : Body) : Option VarId :=
  b.code.findSome? fun
    | .bind dest .this => some dest
    | _ => none

/-- The parameters that are bound, with their variables. -/
def parameters (b : Body) : List (UInt16 × VarId) :=
  b.code.filterMap fun
    | .bind dest (.parameter i) => some (i, dest)
    | _ => none

/-- The position of the first instruction that binds no incoming value. -/
def firstUnbound? (b : Body) : Option Nat :=
  b.code.findIdx? fun i => !i.isBind

/-- The calls that the body makes, in order. -/
def invocations (b : Body) : List Invocation :=
  b.code.filterMap Instruction.invocation?

end Body

end Standin
