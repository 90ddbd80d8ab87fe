import Standin.Abstraction
import Standin.Body.Tidy
import Standin.StandIn.Step

/-!
# Stand-ins

The stand-in for a method is a body with the same effects in which one place stands for the heap. It
is written step by step (`Step.emit`) and then tidied (`Options.standIn`).
-/

namespace Standin

namespace Draft

/-- Binds the incoming values, which are the first variables of the draft. -/
def bindParameters (d : Draft) : Nat → List ValueType → Draft
  | _, [] => d
  | i, t :: ts =>
    let (d, x) := d.newVar t
    (d.push (.bind x (.parameter (UInt16.ofNat i)))).bindParameters (i + 1) ts

/-- The draft of a method with its incoming values bound, the receiver before the parameters. -/
def start (s : Subject) : Draft :=
  let d :=
    if s.method.isStatic then empty
    else
      let (d, x) := empty.newVar (.reference s.owner.name)
      d.push (.bind x .this)
  d.bindParameters 0 s.method.params

end Draft

namespace Abstraction

/-- The call of a constructor on `x`. -/
def construct (a : Abstraction) (d : Draft) (x : VarId) (constructor : MethodRef) : Draft :=
  let (d, args) := a.arguments d constructor.params
  d.push (.invoke ⟨.special, constructor, some x, args⟩)

/-- The invocation of a call. The arguments come before the receiver, which has its recorded type or
else the callee's class. -/
def invocation (a : Abstraction) (d : Draft) (c : Call) : Draft × Invocation :=
  let (d, args) := a.arguments d c.callee.params
  if c.dispatch = .static then (d, ⟨.static, c.callee, none, args⟩)
  else
    let (d, x) := a.representativeAs d (c.receiver.getD (.reference c.callee.className))
    (d, ⟨c.dispatch, c.callee, some x, args⟩)

end Abstraction

namespace Step

/-- Writes a step. -/
def emit (a : Abstraction) (guard : FieldRef) (d : Draft) : Step → Draft
  | superCall m => a.construct d 0 m
  | keep x => a.store d x
  | create m c initializer =>
    let (d, x) := d.assignNew (.reference c) (.new c)
    let d := a.construct d x m
    let d := initializer.elim d (d.callInitializer c)
    a.store d x
  | createArray t =>
    let (d, x) := d.assignNew t t.arrayAllocation
    a.store d x
  | runInitializer c m => d.callInitializer c m
  | statement c =>
    let (d, i) := a.invocation d c
    d.push (.invoke i)
  | result c =>
    let (d, i) := a.invocation d c
    match c.callee.result with
    | .value t =>
      if t.isReferenceLike then
        let (d, x) := d.assignNew t (.invoke i)
        a.store d x
      else d.push (.invoke i)
    | .void => d.push (.invoke i)
  | mayThrow t =>
    let (d, x) := a.representativeAs d t
    d.pushGuarded guard (.throw (.var x))
  | ret .void => d.push (.ret none)
  | ret (.value t) =>
    let (d, v) := a.valueOf d t
    d.push (.ret (some v))

/-- Writes steps up to the first that is an error. -/
def emitAll (a : Abstraction) (guard : FieldRef) :
    Draft → List (Except SynthesisError Step) → Except SynthesisError Unit × Draft
  | d, [] => (.ok (), d)
  | d, .error e :: _ => (.error e, d)
  | d, .ok s :: rest => emitAll a guard (s.emit a guard d) rest

end Step

/-- A stand-in and the effects that it was made from. -/
structure StandIn where
  body : Body
  effects : Effects
deriving DecidableEq, Repr

/-- The outcome for a method, and the types of the variables that were stored into the shared field
on the way, in vain or not. -/
structure Synthesis where
  outcome : Except SynthesisError StandIn
  flows : List ValueType

/-- How stand-ins are made. -/
structure Options where
  abstraction : Abstraction
  log : ReflectionLog
  /-- The static field that decides whether stand-ins throw. -/
  guard : FieldRef
deriving DecidableEq, Repr

namespace Options

/-- The stand-in for a method whose effects are known. -/
def write (o : Options) (p : Program) (s : Subject) (e : Effects) : Synthesis :=
  let r := ReflectiveEffects.collect p o.log e
  let (outcome, d) := Step.emitAll o.abstraction o.guard (Draft.start s) (s.plan p e r)
  ⟨outcome.map fun _ => ⟨d.body.tidy, e⟩, d.flows⟩

/-- The method that a reference means, with its body. -/
def subject (p : Program) (m : MethodRef) : Except SynthesisError Subject :=
  match p.lookup m with
  | .error e => .error (.model e)
  | .ok (c, decl) =>
    match decl.body with
    | none => .error (.missingBody m)
    | some b => .ok ⟨c, decl, b⟩

/-- The stand-in for a method of the program. -/
def standIn (o : Options) (p : Program) (m : MethodRef) : Synthesis :=
  match subject p m with
  | .error e => ⟨.error e, []⟩
  | .ok s =>
    match s.effects with
    | .error e => ⟨.error (.model e), []⟩
    | .ok e => o.write p s e

end Options

/-- The distinct types of stored variables in increasing order. -/
def flowReport (flows : List ValueType) : List ValueType :=
  ValueType.sorted (addAllNew [] flows)

end Standin
