import Standin.Effects
import Standin.MethodRef.Parser
import Standin.ReflectionLog

/-!
# Effects of reflective calls

A method that calls a reflective operation may have the effects of every target that a log records
for this operation. A target counts if it makes sense in the program (`ReflectionKind.effect?`), and
its effect is kept if the body does not have it already (`ReflectiveEffects.collect`).
-/

namespace Standin

/-- The reflective operation that a method is. -/
def MethodRef.reflectionKind? (m : MethodRef) : Option ReflectionKind :=
  match m.className, m.name with
  | "java.lang.reflect.Array", "newInstance" => some .arrayNewInstance
  | "java.lang.Class", "forName" => some .classForName
  | "java.lang.Class", "newInstance" => some .classNewInstance
  | "java.lang.reflect.Constructor", "newInstance" => some .constructorNewInstance
  | "java.lang.reflect.Method", "invoke" => some .methodInvoke
  | _, _ => none

/-- What a reflective call does to one target. -/
inductive ReflectiveEffect
  | arrayCreation (type : ValueType)
  | classInitialization (className : String)
  | objectCreation (constructor : MethodRef)
  | call (call : Call)
deriving DecidableEq, Repr

/-- Each list is in the order of first occurrence and has no repetitions. -/
structure ReflectiveEffects where
  objectCreations : List MethodRef
  arrayCreations : List ValueType
  initializedClasses : List String
  calls : List Call
deriving DecidableEq, Repr

/-- A call of a declared method through reflection. -/
def Call.ofDeclaration (r : MethodRef) (c : ClassDecl) (m : MethodDecl) : Call :=
  if m.isStatic then ⟨.static, r, none⟩
  else ⟨if c.isInterface then .interface else .virtual, r, some (.reference c.name)⟩

namespace ReflectionKind

/-- The effect of a reflective call on a target: none if the target means nothing in the program, or
if its class has nothing to initialize. -/
def effect? (p : Program) : ReflectionKind → String → Option ReflectiveEffect
  | arrayNewInstance, target =>
    match ValueType.parse target with
    | .ok (.array base n) => some (.arrayCreation (.array base n))
    | _ => none
  | classForName, target =>
    let c := Text.trimmed target
    if p.hasStaticInitializer c then some (.classInitialization c) else none
  | classNewInstance, target => do
    let c ← p.class? (Text.trimmed target)
    if c.isInterface then none
    else return .objectCreation ((← c.defaultConstructor?).ref c.name)
  | constructorNewInstance, target => do
    let r ← MethodRef.parse? target
    if r.isConstructor && (p.method? r).isSome then some (.objectCreation r) else none
  | methodInvoke, target => do
    let r ← MethodRef.parse? target
    let (c, m) ← (p.lookup r).toOption
    return .call (.ofDeclaration r c m)

end ReflectionKind

/-- The reflective operations that are called, in the order of their first calls. -/
def Effects.reflectionKinds (e : Effects) : List ReflectionKind :=
  addAllNew [] (e.calls.filterMap fun c => c.callee.reflectionKind?)

namespace ReflectiveEffects

def empty : ReflectiveEffects := ⟨[], [], [], []⟩

def isEmpty (r : ReflectiveEffects) : Bool :=
  r.objectCreations.isEmpty && r.arrayCreations.isEmpty && r.initializedClasses.isEmpty &&
    r.calls.isEmpty

/-- Records an effect, unless the body has it already. -/
def record (scanned : Effects) (r : ReflectiveEffects) : ReflectiveEffect → ReflectiveEffects
  | .arrayCreation t =>
    if t ∈ scanned.arrayCreations then r
    else { r with arrayCreations := addNew r.arrayCreations t }
  | .classInitialization c => { r with initializedClasses := addNew r.initializedClasses c }
  | .objectCreation m =>
    if m ∈ scanned.objectCreations then r
    else { r with objectCreations := addNew r.objectCreations m }
  | .call c => if c ∈ scanned.calls then r else { r with calls := addNew r.calls c }

/-- The effects that the log adds to those of a body. -/
def collect (p : Program) (log : ReflectionLog) (scanned : Effects) : ReflectiveEffects :=
  let found := scanned.reflectionKinds.flatMap fun k => (log.targets k).filterMap (k.effect? p)
  found.foldl (record scanned) empty

end ReflectiveEffects

end Standin
