import Standin.Proofs.Replacement

/-!
# What a stand-in depends on

The stand-in for a method depends on its own body and on the signatures of the program, but on no
other body: programs that agree in their skeletons (`Program.skeleton`) and in the body of the
method have the same stand-in for it (`standIn_of_skeleton`). So a stand-in may be made before or
after others are in their places (`standIn_of_rewritten`).
-/

namespace Standin

/-! ## Classes and methods -/

@[simp]
theorem MethodDecl.ref_signature (m : MethodDecl) (c : String) : m.signature.ref c = m.ref c :=
  rfl

namespace ClassDecl

variable (c : ClassDecl)

theorem find?_skeleton {q : MethodDecl → Bool} (hq : ∀ m, q m.signature = q m) :
    c.skeleton.methods.find? q = (c.methods.find? q).map MethodDecl.signature := by
  have hcomp : q ∘ MethodDecl.signature = q := funext hq
  rw [skeleton, List.find?_map, hcomp]

theorem constructors_skeleton :
    c.skeleton.constructors = c.constructors.map MethodDecl.signature := by
  unfold constructors skeleton
  rw [List.filter_map]
  rfl

theorem defaultConstructor?_skeleton :
    c.skeleton.defaultConstructor? = c.defaultConstructor?.map MethodDecl.signature := by
  unfold defaultConstructor?
  rw [constructors_skeleton, List.find?_map]
  rfl

theorem staticInitializer?_skeleton :
    c.skeleton.staticInitializer? = c.staticInitializer?.map MethodDecl.signature :=
  c.find?_skeleton fun _ => rfl

theorem method?_skeleton (r : MethodRef) :
    c.skeleton.method? r = (c.method? r).map MethodDecl.signature :=
  c.find?_skeleton fun _ => rfl

theorem declares_skeleton (name : String) : c.skeleton.declares name = c.declares name := by
  unfold declares skeleton
  rw [List.any_map]
  rfl

end ClassDecl

/-! ## Programs -/

namespace Program

/-- The program without the bodies of its methods. -/
def skeleton (p : Program) : Program :=
  ⟨p.classes.map ClassDecl.skeleton, by
    rw [List.map_map]
    exact p.distinct⟩

variable (p : Program)

theorem class?_skeleton (name : String) :
    p.skeleton.class? name = (p.class? name).map ClassDecl.skeleton :=
  class?_of_map (f := ClassDecl.skeleton) rfl (fun _ => rfl) name

theorem lookup_skeleton (r : MethodRef) :
    p.skeleton.lookup r = (p.lookup r).map fun found =>
      (found.1.skeleton, found.2.signature) := by
  unfold lookup
  rw [class?_skeleton]
  rcases p.class? r.className with _ | c
  · rfl
  · simp only [Option.map_some, c.method?_skeleton r]
    rcases c.method? r with _ | m <;> rfl

theorem declared_skeleton (name : String) :
    p.skeleton.declared name = (p.declared name).map ClassDecl.skeleton := by
  unfold declared
  rw [class?_skeleton]
  rcases p.class? name with _ | c <;> rfl

theorem superConstructor_skeleton (name : String) :
    p.skeleton.superConstructor name = p.superConstructor name := by
  unfold superConstructor
  rw [declared_skeleton]
  rcases p.declared name with e | c
  · rfl
  · simp only [Except.map, bind, Except.bind, c.defaultConstructor?_skeleton]
    rcases c.defaultConstructor? with _ | m <;> rfl

theorem anyConstructor_skeleton (name : String) :
    p.skeleton.anyConstructor name = p.anyConstructor name := by
  unfold anyConstructor
  rw [declared_skeleton]
  rcases p.declared name with e | c
  · rfl
  · have hany : c.skeleton.defaultConstructor?.or c.skeleton.constructors.head? =
        (c.defaultConstructor?.or c.constructors.head?).map MethodDecl.signature := by
      rw [c.defaultConstructor?_skeleton, c.constructors_skeleton, List.head?_map]
      rcases c.defaultConstructor? with _ | m <;> rfl
    simp only [Except.map, bind, Except.bind, hany]
    rcases c.defaultConstructor?.or c.constructors.head? with _ | m <;> rfl

theorem creation_skeleton (k : MethodRef) : p.skeleton.creation k = p.creation k := by
  unfold creation
  rw [lookup_skeleton]
  rcases p.lookup k with e | ⟨c, m⟩
  · rfl
  · simp only [Except.map, c.staticInitializer?_skeleton, Option.map_map]
    rfl

theorem exceptionCreation_skeleton (name : String) :
    p.skeleton.exceptionCreation name = p.exceptionCreation name := by
  unfold exceptionCreation
  rw [anyConstructor_skeleton]
  exact congrArg _ (funext p.creation_skeleton)

theorem initialization_skeleton (name : String) :
    p.skeleton.initialization name = p.initialization name := by
  unfold initialization
  rw [declared_skeleton]
  rcases p.declared name with e | c
  · rfl
  · simp only [Except.map, c.staticInitializer?_skeleton]
    rcases c.staticInitializer? with _ | m <;> rfl

theorem hasStaticInitializer_skeleton (name : String) :
    p.skeleton.hasStaticInitializer name = p.hasStaticInitializer name := by
  unfold hasStaticInitializer
  rw [class?_skeleton]
  rcases p.class? name with _ | c
  · rfl
  · exact c.declares_skeleton _

theorem isSome_method?_skeleton (r : MethodRef) :
    (p.skeleton.method? r).isSome = (p.method? r).isSome := by
  unfold method?
  rw [lookup_skeleton]
  rcases p.lookup r with e | ⟨c, m⟩ <;> rfl

theorem effect?_skeleton (k : ReflectionKind) (target : String) :
    k.effect? p.skeleton target = k.effect? p target := by
  cases k with
  | arrayNewInstance => rfl
  | classForName => simp only [ReflectionKind.effect?, hasStaticInitializer_skeleton]
  | classNewInstance =>
    simp only [ReflectionKind.effect?, class?_skeleton]
    rcases p.class? (Text.trimmed target) with _ | c
    · rfl
    · simp only [Option.map_some, bind, Option.bind, c.defaultConstructor?_skeleton]
      rcases c.defaultConstructor? with _ | m <;> rfl
  | constructorNewInstance => simp only [ReflectionKind.effect?, isSome_method?_skeleton]
  | methodInvoke =>
    simp only [ReflectionKind.effect?, lookup_skeleton]
    refine congrArg _ (funext fun r => ?_)
    rcases p.lookup r with e | ⟨c, m⟩ <;> rfl

theorem collect_skeleton (log : ReflectionLog) (e : Effects) :
    ReflectiveEffects.collect p.skeleton log e = .collect p log e := by
  have heffect : ∀ k : ReflectionKind, k.effect? p.skeleton = k.effect? p :=
    fun k => funext (p.effect?_skeleton k)
  simp only [ReflectiveEffects.collect, heffect]

end Program

/-! ## Subjects -/

namespace Subject

/-- The method with the signatures alone of its class around it. -/
def skeleton (s : Subject) : Subject :=
  { s with owner := s.owner.skeleton }

variable (p : Program) (s : Subject)

theorem effects_skeleton : s.skeleton.effects = s.effects := by
  have hcall : s.skeleton.call = s.call := rfl
  have hassign : s.skeleton.assignEffect? = s.assignEffect? := by
    funext seen dest value
    unfold assignEffect?
    rw [hcall]
  have heffect : s.skeleton.effect? = s.effect? := by
    funext seen i
    cases i with
    | assign dest value => exact congrFun (congrFun (congrFun hassign seen) dest) value
    | _ => rfl
  have hstep : s.skeleton.step = s.step := by
    funext e i
    unfold step
    rw [heffect]
  unfold effects
  rw [hstep]
  rfl

theorem plan_skeleton (e : Effects) (r : ReflectiveEffects) :
    s.skeleton.plan p.skeleton e r = s.plan p e r := by
  have hsuper : s.skeleton.superSteps p.skeleton = s.superSteps p := by
    simp only [superSteps, p.superConstructor_skeleton]
    rfl
  have hcreate : creationSteps p.skeleton e r = creationSteps p e r := by
    simp only [creationSteps, funext p.creation_skeleton, funext p.exceptionCreation_skeleton,
      funext p.initialization_skeleton]
  unfold plan
  rw [hsuper, hcreate]
  rfl

end Subject

namespace Options

variable {o : Options} {p q : Program} {m : MethodRef}

theorem write_skeleton (o : Options) (p : Program) (s : Subject) (e : Effects) :
    o.write p.skeleton s.skeleton e = o.write p s e := by
  simp only [write, p.collect_skeleton, s.plan_skeleton]
  rfl

/-- Only the signatures of a program and the method's own body count. -/
theorem standIn_of_skeleton (hp : q.skeleton = p.skeleton)
    (hs : (subject q m).map Subject.skeleton = (subject p m).map Subject.skeleton) :
    o.standIn q m = o.standIn p m := by
  unfold standIn
  rcases hq : subject q m with e | s <;> rcases hp' : subject p m with e' | s' <;>
    rw [hq, hp'] at hs
  · cases hs
    rfl
  · cases hs
  · cases hs
  · have hs : s.skeleton = s'.skeleton := Except.ok.inj hs
    have heffects : s.effects = s'.effects := by
      rw [← s.effects_skeleton, hs, s'.effects_skeleton]
    have hwrite : ∀ e, o.write q s e = o.write p s' e := by
      intro e
      rw [← o.write_skeleton q, ← o.write_skeleton p, hp, hs]
    simp only [heffects, hwrite]

/-! ## Stand-ins in their places -/

theorem skeleton_of_rewritten {refs : List MethodRef}
    (hq : q.classes = p.classes.map (o.rewritten p refs)) : q.skeleton = p.skeleton := by
  have hclasses : q.classes.map ClassDecl.skeleton = p.classes.map ClassDecl.skeleton := by
    rw [hq, List.map_map]
    exact List.map_congr_left fun c _ => skeleton_rewritten refs c
  unfold Program.skeleton
  simp only [hclasses]

/-- The method that a reference means has its stand-in if it is one of `refs`. -/
theorem method?_rewritten {refs : List MethodRef} {c : ClassDecl} (hc : c.name = m.className) :
    (o.rewritten p refs c).method? m = (c.method? m).map fun d =>
      { d with body := if m ∈ refs then
          ((o.standIn p m).outcome.toOption.map StandIn.body).or d.body else d.body } := by
  have hidx : (o.rewritten p refs c).methods.findIdx? (fun n => n.answers m) =
      c.methods.findIdx? fun n => n.answers m :=
    findIdx?_of_skeleton (skeleton_rewritten refs c) fun _ => rfl
  unfold ClassDecl.method?
  rw [List.find?_eq_bind_findIdx?_getElem?, List.find?_eq_bind_findIdx?_getElem?, hidx]
  rcases hj : c.methods.findIdx? (fun n => n.answers m) with _ | j
  · simp [hj]
  · obtain ⟨hlt, hans, _⟩ := List.findIdx?_eq_some_iff_getElem.1 hj
    have href : (c.methods[j]).ref c.name = m := (MethodDecl.answers_iff hc.symm).1 hans
    by_cases hm : m ∈ refs <;> simp [hj, rewritten, standInFor?, hlt, href, hm]

theorem subject_of_rewritten {refs : List MethodRef}
    (hq : q.classes = p.classes.map (o.rewritten p refs)) (hm : m ∉ refs) :
    (subject q m).map Subject.skeleton = (subject p m).map Subject.skeleton := by
  unfold subject Program.lookup
  rw [Program.class?_of_map hq (fun _ => rfl)]
  rcases hc : p.class? m.className with _ | c
  · rfl
  · simp only [Option.map_some, method?_rewritten (Program.name_of_class? hc), if_neg hm]
    rcases hd : c.method? m with _ | decl
    · rfl
    · rcases hb : decl.body with _ | b
      · simp only [Option.map_some, hb]
      · simp only [Option.map_some, hb, Except.map, Subject.skeleton, skeleton_rewritten]
        rw [← hb]

/-- Stand-ins that are in their places make no difference to that of another method. -/
theorem standIn_of_rewritten {refs : List MethodRef}
    (hq : q.classes = p.classes.map (o.rewritten p refs)) (hm : m ∉ refs) :
    o.standIn q m = o.standIn p m :=
  standIn_of_skeleton (skeleton_of_rewritten hq) (subject_of_rewritten hq hm)

end Options

end Standin
