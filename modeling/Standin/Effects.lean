import Standin.Distinct
import Standin.Program

/-!
# Effects of a body

What the code around a method can tell of its body: which objects and arrays it creates, which
methods it calls, what it throws, and whether it reads and writes array elements. An instruction has
at most one effect (`Subject.effect?`), and the effects of a body are collected in one pass over it
(`Subject.effects`).
-/

namespace Standin

/-- A call as its callee sees it. -/
structure Call where
  dispatch : Dispatch
  callee : MethodRef
  /-- The declared type of the receiver; none for a call without one. -/
  receiver : Option ValueType
deriving DecidableEq, Repr

/-- Each list is in the order of first occurrence and has no repetitions. -/
structure Effects where
  arrayCreations : List ValueType
  /-- The constructors that are run on new objects. -/
  objectCreations : List MethodRef
  /-- The calls whose results are dropped. -/
  statements : List Call
  /-- The calls whose results are kept. -/
  results : List Call
  throwables : List ValueType
  /-- The classes of the exceptions that are handled. -/
  checkedExceptions : List String
  readsArray : Bool
  writesArray : Bool
deriving DecidableEq, Repr

/-- The effect of one instruction. -/
inductive Effect
  | arrayCreation (type : ValueType)
  | arrayRead
  | arrayWrite
  | result (call : Call)
  | objectCreation (constructor : MethodRef)
  | statement (call : Call)
  | thrown (type : ValueType)
deriving DecidableEq, Repr

/-- Which array accesses have been seen. Of each kind only the first is an effect. -/
structure ArrayAccess where
  reads : Bool
  writes : Bool
deriving DecidableEq, Repr

namespace Effects

def empty : Effects := ⟨[], [], [], [], [], [], false, false⟩

def access (e : Effects) : ArrayAccess :=
  ⟨e.readsArray, e.writesArray⟩

def record (e : Effects) : Effect → Effects
  | .arrayCreation t => { e with arrayCreations := addNew e.arrayCreations t }
  | .arrayRead => { e with readsArray := true }
  | .arrayWrite => { e with writesArray := true }
  | .result c => { e with results := addNew e.results c }
  | .objectCreation m => { e with objectCreations := addNew e.objectCreations m }
  | .statement c => { e with statements := addNew e.statements c }
  | .thrown t => { e with throwables := addNew e.throwables t }

/-- All calls, those without a result first. -/
def calls (e : Effects) : List Call :=
  e.statements ++ e.results

end Effects

/-- A method with its class and the body that is looked at. -/
structure Subject where
  owner : ClassDecl
  method : MethodDecl
  body : Body
deriving DecidableEq, Repr

namespace Subject

def ref (s : Subject) : MethodRef :=
  s.method.ref s.owner.name

/-- The type of a variable, which must be declared. -/
def typeOf (s : Subject) (x : VarId) : Except ModelError ValueType :=
  match s.body.typeOf? x with
  | some t => .ok t
  | none => .error (.unknownVariable s.ref x)

def call (s : Subject) (i : Invocation) : Except ModelError Call :=
  match i.receiver with
  | none => .ok ⟨i.dispatch, i.callee, none⟩
  | some x => (s.typeOf x).map fun t => ⟨i.dispatch, i.callee, some t⟩

/-- A constructor's call of a constructor of the direct superclass. -/
def isSuperConstructorCall (s : Subject) (i : Invocation) : Bool :=
  s.owner.superclass = some i.callee.className && i.dispatch = .special &&
    s.method.isConstructor && i.callee.isConstructor

/-- A call of a constructor on a new object. -/
def isObjectCreation (s : Subject) (i : Invocation) : Bool :=
  i.dispatch = .special && i.callee.isConstructor && !s.isSuperConstructorCall i

/-- The effect of an assignment. An array creation comes before a first read, that before a first
write, and that before a call. -/
def assignEffect? (s : Subject) (seen : ArrayAccess) (dest : Place) (value : Expr) :
    Except ModelError (Option Effect) :=
  match value with
  | .newArray t _ => .ok (some (.arrayCreation t))
  | _ =>
    if !seen.reads && value.isArrayElement then .ok (some .arrayRead)
    else if !seen.writes && dest.isArrayElement then .ok (some .arrayWrite)
    else
      match value with
      | .invoke i => (s.call i).map fun c => some (.result c)
      | _ => .ok none

/-- The effect of an instruction, if it has one. A call on a variable that is not declared fails,
and so does throwing one. -/
def effect? (s : Subject) (seen : ArrayAccess) : Instruction → Except ModelError (Option Effect)
  | .assign dest value => s.assignEffect? seen dest value
  | .invoke i =>
    (s.call i).map fun c =>
      if s.isObjectCreation i then some (.objectCreation i.callee)
      else if s.isSuperConstructorCall i then none
      else some (.statement c)
  | .throw (.var x) => (s.typeOf x).map fun t => some (.thrown t)
  | .throw (.const c) => .ok (c.type?.map .thrown)
  | _ => .ok none

/-- The effects so far, and that of one more instruction. -/
def step (s : Subject) (e : Effects) (i : Instruction) : Except ModelError Effects :=
  (s.effect? e.access i).map fun
    | some effect => e.record effect
    | none => e

/-- The effects of the body. -/
def effects (s : Subject) : Except ModelError Effects :=
  (s.body.code.foldlM s.step Effects.empty).map fun e =>
    { e with checkedExceptions := addAllNew [] (s.body.handlers.map Handler.exception) }

end Subject

end Standin
