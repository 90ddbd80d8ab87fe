import Standin.Effects.Reflective
import Standin.SynthesisError

/-!
# The steps of a stand-in

What a stand-in does after its incoming values are bound, in order: it calls the constructor of the
superclass, keeps its incoming objects, creates what the body created, makes its calls, may throw
what it threw, and returns. A step that the program does not allow is an error in its place in the
list (`Subject.plan`).
-/

namespace Standin

inductive Step
  /-- The call of a superclass constructor on the receiver. -/
  | superCall (constructor : MethodRef)
  /-- Keeps the value of an incoming variable. -/
  | keep (x : VarId)
  /-- A new object of a class, with the call of a constructor and of the static initializer. -/
  | create (constructor : MethodRef) (className : String) (initializer : Option MethodRef)
  | createArray (type : ValueType)
  /-- The call of a static initializer alone. -/
  | runInitializer (className : String) (initializer : MethodRef)
  /-- A call whose result is dropped. -/
  | statement (call : Call)
  /-- A call whose result is kept if it is an object. -/
  | result (call : Call)
  /-- Throws an object of the type unless the guard is set. -/
  | mayThrow (type : ValueType)
  | ret (type : ResultType)
deriving DecidableEq, Repr

namespace Program

/-- The class, which must be declared. -/
def declared (p : Program) (className : String) : Except SynthesisError ClassDecl :=
  match p.class? className with
  | some c => .ok c
  | none => .error (.model (.missingClass className))

/-- The constructor without parameters. -/
def superConstructor (p : Program) (className : String) : Except SynthesisError MethodRef := do
  let c ← p.declared className
  match c.defaultConstructor? with
  | some m => .ok (m.ref c.name)
  | none => .error (.model (.noConstructor className))

/-- The constructor without parameters, or else the first one. -/
def anyConstructor (p : Program) (className : String) : Except SynthesisError MethodRef := do
  let c ← p.declared className
  match c.defaultConstructor?.or c.constructors.head? with
  | some m => .ok (m.ref c.name)
  | none => .error (.model (.noConstructor className))

/-- A new object with the call of a constructor, which must be declared by a class proper. -/
def creation (p : Program) (constructor : MethodRef) : Except SynthesisError Step :=
  match p.lookup constructor with
  | .error e => .error (.model e)
  | .ok (c, _) =>
    if c.isInterface then .error (.unresolvableType (.reference c.name) .interface)
    else .ok (.create constructor c.name (c.staticInitializer?.map fun m => m.ref c.name))

/-- A new exception of a class. -/
def exceptionCreation (p : Program) (className : String) : Except SynthesisError Step := do
  p.creation (← p.anyConstructor className)

/-- The call of the static initializer of a class, if it has one. -/
def initialization (p : Program) (className : String) : List (Except SynthesisError Step) :=
  match p.declared className with
  | .error e => [.error e]
  | .ok c => c.staticInitializer?.toList.map fun m => .ok (.runInitializer c.name (m.ref c.name))

end Program

/-- A new array, whose type must be an array type with dimensions. -/
def ValueType.arrayCreation (t : ValueType) : Except SynthesisError Step :=
  match t with
  | .array _ n =>
    if n = 0 then .error (.unresolvableType t .noDimensions) else .ok (.createArray t)
  | _ => .error (.unresolvableType t .notAnArray)

/-- A call must not wait for a bootstrap method. -/
def Call.supported (c : Call) : Except SynthesisError Call :=
  if c.dispatch = .dynamic then .error (.unsupportedDispatch c.callee c.dispatch) else .ok c

namespace Subject

/-- The types of the incoming values, the receiver first. -/
def incoming (s : Subject) : List ValueType :=
  (if s.method.isStatic then [] else [.reference s.owner.name]) ++ s.method.params

/-- A constructor that is not static calls the constructor of the superclass, if there is one. -/
def superSteps (p : Program) (s : Subject) : List (Except SynthesisError Step) :=
  if s.method.isConstructor && !s.method.isStatic then
    s.owner.superclass.toList.map fun c => (p.superConstructor c).map .superCall
  else []

/-- The incoming variables from number `x` on that hold objects are kept. -/
def keepSteps : VarId → List ValueType → List (Except SynthesisError Step)
  | _, [] => []
  | x, t :: ts =>
    if t.isReferenceLike then .ok (.keep x) :: keepSteps (x + 1) ts else keepSteps (x + 1) ts

def creationSteps (p : Program) (e : Effects) (r : ReflectiveEffects) :
    List (Except SynthesisError Step) :=
  e.objectCreations.map p.creation ++ e.arrayCreations.map ValueType.arrayCreation ++
    e.checkedExceptions.map p.exceptionCreation ++ r.objectCreations.map p.creation ++
    r.arrayCreations.map ValueType.arrayCreation ++ r.initializedClasses.flatMap p.initialization

def callSteps (e : Effects) (r : ReflectiveEffects) : List (Except SynthesisError Step) :=
  e.statements.map (fun c => c.supported.map .statement) ++
    (e.results ++ r.calls).map fun c => c.supported.map .result

def exitSteps (s : Subject) (e : Effects) : List (Except SynthesisError Step) :=
  (e.throwables.filter ValueType.isReferenceLike).map (fun t => .ok (.mayThrow t)) ++
    [.ok (.ret s.method.result)]

/-- All steps of the stand-in for a body with the effects `e`, to which the log adds `r`. -/
def plan (p : Program) (s : Subject) (e : Effects) (r : ReflectiveEffects) :
    List (Except SynthesisError Step) :=
  s.superSteps p ++ keepSteps 0 s.incoming ++ creationSteps p e r ++ callSteps e r ++ s.exitSteps e

end Subject

end Standin
