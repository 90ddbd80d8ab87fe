import Standin.Body

/-!
# Programs

The classes of a program in the order of their first declaration, at most one of each name. A method
of a class is found by its whole signature (`ClassDecl.method?`) or, where a call is dispatched, by
its name and parameters (`ClassDecl.methodNamed?`); the first declaration counts.
-/

namespace Standin

structure FieldDecl where
  name : String
  type : ValueType
  isStatic : Bool
deriving DecidableEq, Repr

structure MethodDecl where
  name : String
  params : List ValueType
  result : ResultType
  isStatic : Bool
  isAbstract : Bool
  isNative : Bool
  body : Option Body
deriving DecidableEq, Repr

namespace MethodDecl

def isConstructor (m : MethodDecl) : Bool :=
  m.name = constructorName

def isStaticInitializer (m : MethodDecl) : Bool :=
  m.name = staticInitializerName

/-- Whether the method is implemented in the program. -/
def isConcrete (m : MethodDecl) : Bool :=
  !m.isAbstract && !m.isNative

/-- The reference to the method as one of the class `className`. -/
def ref (m : MethodDecl) (className : String) : MethodRef :=
  ⟨className, m.name, m.params, m.result⟩

/-- Whether the method has the signature of `r`, whatever its class. -/
def answers (m : MethodDecl) (r : MethodRef) : Bool :=
  m.name = r.name && m.params = r.params && m.result = r.result

end MethodDecl

structure ClassDecl where
  name : String
  superclass : Option String
  interfaces : List String
  isInterface : Bool
  /-- The bodies of application classes are kept; all other classes are library classes. -/
  isApplication : Bool
  fields : List FieldDecl
  methods : List MethodDecl
deriving DecidableEq, Repr

namespace ClassDecl

def declares (c : ClassDecl) (methodName : String) : Bool :=
  c.methods.any fun m => m.name = methodName

def constructors (c : ClassDecl) : List MethodDecl :=
  c.methods.filter MethodDecl.isConstructor

/-- The constructor without parameters. -/
def defaultConstructor? (c : ClassDecl) : Option MethodDecl :=
  c.constructors.find? fun m => m.params.isEmpty

def staticInitializer? (c : ClassDecl) : Option MethodDecl :=
  c.methods.find? MethodDecl.isStaticInitializer

def method? (c : ClassDecl) (r : MethodRef) : Option MethodDecl :=
  c.methods.find? fun m => m.answers r

def methodNamed? (c : ClassDecl) (name : String) (params : List ValueType) : Option MethodDecl :=
  c.methods.find? fun m => m.name = name && m.params = params

/-- The implemented methods with a body. -/
def bodied (c : ClassDecl) : List MethodDecl :=
  c.methods.filter fun m => m.isConcrete && m.body.isSome

end ClassDecl

/-- What a program lacks, or a body refers to in vain. -/
inductive ModelError
  | missingClass (className : String)
  | missingMethod (method : MethodRef)
  | noConstructor (className : String)
  | unknownVariable (method : MethodRef) (x : VarId)
deriving DecidableEq, Repr

def ModelError.message : ModelError → String
  | missingClass c => "class " ++ c ++ " is not part of the program model"
  | missingMethod m => "method " ++ m.text ++ " is not part of the program model"
  | noConstructor c => "class " ++ c ++ " declares no constructor"
  | unknownVariable m x => "body of " ++ m.text ++ " refers to undeclared local " ++ x.repr

structure Program where
  classes : List ClassDecl
  distinct : (classes.map ClassDecl.name).Nodup
deriving DecidableEq

theorem Program.eq_of_classes {p q : Program} (h : p.classes = q.classes) : p = q := by
  cases p
  cases q
  cases h
  rfl

/-- Changes the first item that satisfies `p`. -/
def modifyFirst {α : Type} (p : α → Bool) (f : α → α) : List α → List α
  | [] => []
  | x :: xs => if p x then f x :: xs else x :: modifyFirst p f xs

namespace ClassDecl

/-- The classes with `c` in place of the one of its name, or behind them. -/
def insertInto (c : ClassDecl) (cs : List ClassDecl) : List ClassDecl :=
  if cs.any fun d => d.name = c.name then cs.map fun d => if d.name = c.name then c else d
  else cs ++ [c]

theorem map_name_insertInto (c : ClassDecl) (cs : List ClassDecl) :
    (c.insertInto cs).map name =
      if cs.any fun d => d.name = c.name then cs.map name else cs.map name ++ [c.name] := by
  unfold insertInto
  split
  · rw [List.map_map]
    refine List.map_congr_left fun d _ => ?_
    by_cases h : d.name = c.name <;> simp [h]
  · simp

theorem nodup_insertInto (c : ClassDecl) {cs : List ClassDecl} (h : (cs.map name).Nodup) :
    ((c.insertInto cs).map name).Nodup := by
  rw [map_name_insertInto]
  split
  · exact h
  · next hc =>
    refine List.nodup_append.2 ⟨h, by simp, ?_⟩
    intro a ha b hb hab
    obtain ⟨d, hd, rfl⟩ := List.mem_map.1 ha
    simp only [List.any_eq_true, not_exists, not_and, decide_eq_true_eq] at hc
    exact hc d hd (hab.trans (List.mem_singleton.1 hb))

/-- The class with another body for the first method that has the signature of `r`. -/
def setBody (c : ClassDecl) (r : MethodRef) (b : Body) : ClassDecl :=
  { c with
    methods := modifyFirst (fun m => m.answers r) (fun m => { m with body := some b }) c.methods }

theorem name_setBody (r : MethodRef) (b : Body) (c : ClassDecl) : (c.setBody r b).name = c.name :=
  rfl

end ClassDecl

namespace Program

def empty : Program := ⟨[], by simp⟩

/-- The program with a class added; one of the same name gives up its place to it. -/
def insert (p : Program) (c : ClassDecl) : Program :=
  ⟨c.insertInto p.classes, c.nodup_insertInto p.distinct⟩

def ofClasses (cs : List ClassDecl) : Program :=
  cs.foldl insert empty

def class? (p : Program) (name : String) : Option ClassDecl :=
  p.classes.find? fun c => c.name = name

def superclass? (p : Program) (c : ClassDecl) : Option ClassDecl :=
  c.superclass.bind p.class?

/-- The class and the declaration that a reference means. -/
def lookup (p : Program) (r : MethodRef) : Except ModelError (ClassDecl × MethodDecl) :=
  match p.class? r.className with
  | none => .error (.missingClass r.className)
  | some c =>
    match c.method? r with
    | none => .error (.missingMethod r)
    | some m => .ok (c, m)

def method? (p : Program) (r : MethodRef) : Option MethodDecl :=
  (p.lookup r).toOption.map Prod.snd

def hasStaticInitializer (p : Program) (className : String) : Bool :=
  (p.class? className).any fun c => c.declares staticInitializerName

/-- The implemented methods with a body of all classes but those of the application. -/
def libraryMethods (p : Program) : List MethodRef :=
  (p.classes.filter fun c => !c.isApplication).flatMap fun c =>
    c.bodied.map fun m => m.ref c.name

theorem map_name_modifyFirst (cs : List ClassDecl) (p : ClassDecl → Bool)
    (f : ClassDecl → ClassDecl) (hf : ∀ c, (f c).name = c.name) :
    (modifyFirst p f cs).map ClassDecl.name = cs.map ClassDecl.name := by
  induction cs with
  | nil => rfl
  | cons c cs ih =>
    unfold modifyFirst
    split
    · simp [hf]
    · simp [ih]

/-- The program with another body for the method that `r` means, if there is one. -/
def setBody (p : Program) (r : MethodRef) (b : Body) : Program :=
  ⟨modifyFirst (fun c => c.name = r.className) (fun c => c.setBody r b) p.classes, by
    rw [map_name_modifyFirst _ _ _ (ClassDecl.name_setBody r b)]
    exact p.distinct⟩

/-- The program with another body for a method, and the body that the method had. -/
def replaceBody (p : Program) (r : MethodRef) (b : Body) :
    Except ModelError (Program × Option Body) :=
  match p.lookup r with
  | .error e => .error e
  | .ok (_, m) => .ok (p.setBody r b, m.body)

end Program

end Standin
