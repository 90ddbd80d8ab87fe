import Standin.Proofs.Blocks

/-!
# Plans that are carried out

A stand-in is made when no step of its plan is an error. Its steps are then those of
`Subject.steps`: each is known from the effects of the body and of the log, the constructors that
are called for the superclass and for handled exceptions, and nothing else (`plan_eq_ok`). The code
before tidying binds the incoming values and goes on with the blocks of the steps
(`standIn_eq_ok`).
-/

namespace Standin

namespace Program

variable {p : Program} {s : Step}

/-- The static initializer of a class, if the class is declared and has one. -/
def initializer? (p : Program) (className : String) : Option MethodRef :=
  (p.class? className).bind fun c => c.staticInitializer?.map fun m => m.ref c.name

/-- The step that creates an object with a constructor. -/
def createStep (p : Program) (constructor : MethodRef) : Step :=
  .create constructor constructor.className (p.initializer? constructor.className)

theorem name_of_class? {name : String} {c : ClassDecl} (h : p.class? name = some c) :
    c.name = name := by
  simpa using List.find?_some h

theorem creation_eq_ok {k : MethodRef} (h : p.creation k = .ok s) : s = p.createStep k := by
  unfold creation lookup at h
  rcases hc : p.class? k.className with _ | c
  · simp [hc] at h
  · rcases hm : c.method? k with _ | m
    · simp [hc, hm] at h
    · simp only [hc, hm] at h
      split at h
      · cases h
      · cases h
        simp [createStep, initializer?, hc, name_of_class? hc]

theorem exceptionCreation_eq_ok {c : String} (h : p.exceptionCreation c = .ok s) :
    ∃ k, p.anyConstructor c = .ok k ∧ s = p.createStep k := by
  unfold exceptionCreation at h
  rcases hk : p.anyConstructor c with e | k
  · rw [hk] at h
    cases h
  · rw [hk] at h
    exact ⟨k, rfl, creation_eq_ok h⟩

theorem initialization_eq_ok {c : String} {steps : List Step}
    (h : p.initialization c = steps.map .ok) :
    steps = (p.initializer? c).toList.map (.runInitializer c) := by
  unfold initialization declared at h
  rcases hc : p.class? c with _ | d
  · rw [hc] at h
    rcases steps with _ | ⟨s, steps⟩ <;> simp at h
  · rw [hc] at h
    have hn := name_of_class? hc
    rcases hi : d.staticInitializer? with _ | m
    · simp only [hi, Option.toList_none, List.map_nil] at h
      simp [initializer?, hc, hi, List.map_eq_nil_iff.1 h.symm]
    · simp only [hi, hn, Option.toList_some, List.map_cons, List.map_nil] at h
      rcases steps with _ | ⟨s, _ | ⟨s', steps⟩⟩
      · simp at h
      · simp only [List.map_cons, List.map_nil, List.cons.injEq, Except.ok.injEq, and_true] at h
        simp [initializer?, hc, hi, hn, h]
      · simp at h

end Program

theorem forall₂_of_map_eq_ok {α β ε : Type} {f : α → Except ε β} :
    ∀ {xs : List α} {ys : List β}, xs.map f = ys.map .ok →
      List.Forall₂ (fun x y => f x = .ok y) xs ys
  | [], [], _ => .nil
  | [], _ :: _, h => by simp at h
  | _ :: _, [], h => by simp at h
  | x :: xs, y :: ys, h => by
    simp only [List.map_cons, List.cons.injEq] at h
    exact .cons h.1 (forall₂_of_map_eq_ok h.2)

theorem eq_map_of_forall₂ {α β : Type} {R : α → β → Prop} (f : α → β)
    (hf : ∀ x y, R x y → y = f x) :
    ∀ {xs : List α} {ys : List β}, List.Forall₂ R xs ys → ys = xs.map f
  | _, _, .nil => rfl
  | _, _, .cons h hs => by rw [List.map_cons, hf _ _ h, eq_map_of_forall₂ f hf hs]

theorem exists_of_forall₂ {α β γ : Type} {R : α → β → Prop} {Q : α → γ → Prop} {f : γ → β}
    (hf : ∀ x y, R x y → ∃ z, Q x z ∧ y = f z) :
    ∀ {xs : List α} {ys : List β}, List.Forall₂ R xs ys →
      ∃ zs, List.Forall₂ Q xs zs ∧ ys = zs.map f
  | _, _, .nil => ⟨[], .nil, rfl⟩
  | _, _, .cons h hs => by
    obtain ⟨z, hz, rfl⟩ := hf _ _ h
    obtain ⟨zs, hzs, rfl⟩ := exists_of_forall₂ hf hs
    exact ⟨z :: zs, .cons hz hzs, rfl⟩

theorem eq_flatMap_of_flatMap_eq_ok {α β ε : Type} {f : α → List (Except ε β)} {g : α → List β}
    (hf : ∀ x ys, f x = ys.map .ok → ys = g x) :
    ∀ {xs : List α} {ys : List β}, xs.flatMap f = ys.map .ok → ys = xs.flatMap g
  | [], ys, h => by
    rw [List.flatMap_nil] at h ⊢
    exact List.map_eq_nil_iff.1 h.symm
  | x :: xs, ys, h => by
    rw [List.flatMap_cons] at h
    obtain ⟨ys₁, ys₂, rfl, h₁, h₂⟩ := List.append_eq_map_iff.1 h
    rw [List.flatMap_cons, hf x ys₁ h₁.symm, eq_flatMap_of_flatMap_eq_ok hf h₂.symm]

namespace Subject

/-- The superclass whose constructor a stand-in calls. -/
def calledSuperclass? (s : Subject) : Option String :=
  if s.method.isConstructor && !s.method.isStatic then s.owner.superclass else none

/-- The steps that keep the incoming objects, whose variables are numbered from `x` on. -/
def keeps : VarId → List ValueType → List Step
  | _, [] => []
  | x, t :: ts => if t.isReferenceLike then .keep x :: keeps (x + 1) ts else keeps (x + 1) ts

/-- The steps that create what the body creates, with a constructor for each handled exception. -/
def creations (p : Program) (e : Effects) (r : ReflectiveEffects) (exceptions : List MethodRef) :
    List Step :=
  e.objectCreations.map p.createStep ++ e.arrayCreations.map .createArray ++
    exceptions.map p.createStep ++ r.objectCreations.map p.createStep ++
    r.arrayCreations.map .createArray ++
    r.initializedClasses.flatMap fun c => (p.initializer? c).toList.map (.runInitializer c)

/-- The steps that make the calls of the body and of the log. -/
def calls (e : Effects) (r : ReflectiveEffects) : List Step :=
  e.statements.map .statement ++ (e.results ++ r.calls).map .result

/-- The steps that leave the method. -/
def exits (s : Subject) (e : Effects) : List Step :=
  (e.throwables.filter ValueType.isReferenceLike).map .mayThrow ++ [.ret s.method.result]

/-- The steps of a stand-in that is made. -/
def steps (p : Program) (s : Subject) (e : Effects) (r : ReflectiveEffects)
    (supers exceptions : List MethodRef) : List Step :=
  supers.map .superCall ++ keeps 0 s.incoming ++ creations p e r exceptions ++ calls e r ++
    s.exits e

theorem keepSteps_eq :
    ∀ (x : VarId) (ts : List ValueType), keepSteps x ts = (keeps x ts).map .ok
  | _, [] => rfl
  | x, t :: ts => by
    unfold keepSteps keeps
    split
    · rw [keepSteps_eq (x + 1) ts, List.map_cons]
    · exact keepSteps_eq (x + 1) ts

theorem superSteps_eq (p : Program) (s : Subject) :
    s.superSteps p =
      s.calledSuperclass?.toList.map fun c => (p.superConstructor c).map .superCall := by
  unfold superSteps calledSuperclass?
  split <;> rfl

theorem superSteps_eq_ok {p : Program} {s : Subject} {ys : List Step}
    (h : s.superSteps p = ys.map .ok) :
    ∃ supers, List.Forall₂ (fun c k => p.superConstructor c = .ok k) s.calledSuperclass?.toList
      supers ∧ ys = supers.map .superCall := by
  rw [superSteps_eq] at h
  refine exists_of_forall₂ (fun c y hy => ?_) (forall₂_of_map_eq_ok h)
  rcases hk : p.superConstructor c with e | k
  · rw [hk] at hy
    cases hy
  · rw [hk] at hy
    exact ⟨k, rfl, (Except.ok.inj hy).symm⟩

theorem arrayCreation_eq_ok {t : ValueType} {y : Step} (h : t.arrayCreation = .ok y) :
    y = .createArray t := by
  unfold ValueType.arrayCreation at h
  split at h
  · split at h
    · cases h
    · exact (Except.ok.inj h).symm
  · cases h

theorem creationSteps_eq_ok {p : Program} {e : Effects} {r : ReflectiveEffects} {ys : List Step}
    (h : creationSteps p e r = ys.map .ok) :
    ∃ exceptions, List.Forall₂ (fun c k => p.anyConstructor c = .ok k) e.checkedExceptions
      exceptions ∧ ys = creations p e r exceptions := by
  have hobj : ∀ {ks : List MethodRef} {ys : List Step}, ys.map .ok = ks.map p.creation →
      ys = ks.map p.createStep := fun h =>
    eq_map_of_forall₂ p.createStep (fun _ _ => Program.creation_eq_ok) (forall₂_of_map_eq_ok h.symm)
  have harr : ∀ {ts : List ValueType} {ys : List Step},
      ys.map .ok = ts.map ValueType.arrayCreation → ys = ts.map .createArray := fun h =>
    eq_map_of_forall₂ Step.createArray (fun _ _ => arrayCreation_eq_ok)
      (forall₂_of_map_eq_ok h.symm)
  obtain ⟨ys, y₆, rfl, h, h₆⟩ := List.append_eq_map_iff.1 h
  obtain ⟨ys, y₅, rfl, h, h₅⟩ := List.append_eq_map_iff.1 h.symm
  obtain ⟨ys, y₄, rfl, h, h₄⟩ := List.append_eq_map_iff.1 h.symm
  obtain ⟨ys, y₃, rfl, h, h₃⟩ := List.append_eq_map_iff.1 h.symm
  obtain ⟨y₁, y₂, rfl, h₁, h₂⟩ := List.append_eq_map_iff.1 h.symm
  obtain ⟨exceptions, hex, rfl⟩ := exists_of_forall₂
    (fun c s (hs : p.exceptionCreation c = .ok s) => Program.exceptionCreation_eq_ok hs)
    (forall₂_of_map_eq_ok h₃.symm)
  refine ⟨exceptions, hex, ?_⟩
  rw [hobj h₁, harr h₂, hobj h₄, harr h₅,
    eq_flatMap_of_flatMap_eq_ok (fun _ _ => Program.initialization_eq_ok) h₆.symm]
  rfl

theorem callSteps_eq_ok {e : Effects} {r : ReflectiveEffects} {ys : List Step}
    (h : callSteps e r = ys.map .ok) : ys = calls e r := by
  have hcall : ∀ {f : Call → Step} {c : Call} {y : Step}, c.supported.map f = .ok y → y = f c := by
    intro f c y hy
    unfold Call.supported at hy
    split at hy
    · cases hy
    · exact (Except.ok.inj hy).symm
  obtain ⟨y₁, y₂, rfl, h₁, h₂⟩ := List.append_eq_map_iff.1 h
  rw [eq_map_of_forall₂ Step.statement (fun _ _ => hcall) (forall₂_of_map_eq_ok h₁.symm),
    eq_map_of_forall₂ Step.result (fun _ _ => hcall) (forall₂_of_map_eq_ok h₂.symm)]
  rfl

theorem plan_eq_ok {p : Program} {s : Subject} {e : Effects} {r : ReflectiveEffects}
    {ys : List Step} (h : s.plan p e r = ys.map .ok) :
    ∃ supers exceptions,
      List.Forall₂ (fun c k => p.superConstructor c = .ok k) s.calledSuperclass?.toList supers ∧
      List.Forall₂ (fun c k => p.anyConstructor c = .ok k) e.checkedExceptions exceptions ∧
      ys = s.steps p e r supers exceptions := by
  obtain ⟨ys, y₅, rfl, h, h₅⟩ := List.append_eq_map_iff.1 h
  obtain ⟨ys, y₄, rfl, h, h₄⟩ := List.append_eq_map_iff.1 h.symm
  obtain ⟨ys, y₃, rfl, h, h₃⟩ := List.append_eq_map_iff.1 h.symm
  obtain ⟨y₁, y₂, rfl, h₁, h₂⟩ := List.append_eq_map_iff.1 h.symm
  obtain ⟨supers, hsup, rfl⟩ := superSteps_eq_ok h₁.symm
  obtain ⟨exceptions, hex, rfl⟩ := creationSteps_eq_ok h₃.symm
  have hinj : Function.Injective (Except.ok : Step → Except SynthesisError Step) :=
    fun _ _ => Except.ok.inj
  have hkeep : y₂ = keeps 0 s.incoming := by
    rw [keepSteps_eq] at h₂
    exact List.map_injective_iff.2 hinj h₂
  have hexit : y₅ = s.exits e := by
    refine List.map_injective_iff.2 hinj (h₅.trans ?_)
    simp [exitSteps, exits]
  refine ⟨supers, exceptions, hsup, hex, ?_⟩
  rw [hkeep, hexit, callSteps_eq_ok h₄.symm]
  rfl

theorem keep_mem_keeps {y : VarId} :
    ∀ {x : VarId} {ts : List ValueType}, Step.keep y ∈ keeps x ts ↔
      ∃ k t, y = x + k ∧ ts[k]? = some t ∧ t.isReferenceLike
  | x, [] => by simp [keeps]
  | x, t :: ts => by
    have ih : Step.keep y ∈ keeps (x + 1) ts ↔
        ∃ k t, y = x + 1 + k ∧ ts[k]? = some t ∧ t.isReferenceLike := keep_mem_keeps
    have hstep : (∃ k u, y = x + k ∧ (t :: ts)[k]? = some u ∧ u.isReferenceLike) ↔
        (y = x ∧ t.isReferenceLike) ∨ Step.keep y ∈ keeps (x + 1) ts := by
      rw [ih]
      constructor
      · rintro ⟨_ | k, u, hy, hu, hr⟩
        · cases hu
          exact .inl ⟨hy, hr⟩
        · exact .inr ⟨k, u, hy.trans (Nat.add_right_comm x 1 k).symm, hu, hr⟩
      · rintro (⟨hy, hr⟩ | ⟨k, u, hy, hu, hr⟩)
        · exact ⟨0, t, hy, rfl, hr⟩
        · exact ⟨k + 1, u, hy.trans (Nat.add_right_comm x 1 k), hu, hr⟩
    rw [hstep, keeps]
    split
    · next hr => simp [hr]
    · next hr => simp [hr]

/-- The parameters of those types, numbered from a position on. -/
def parameters : Nat → List ValueType → List (Incoming × ValueType)
  | _, [] => []
  | i, t :: ts => (.parameter (UInt16.ofNat i), t) :: parameters (i + 1) ts

/-- The incoming values with their types, the receiver first. -/
def arrivals (s : Subject) : List (Incoming × ValueType) :=
  (if s.method.isStatic then [] else [(.this, .reference s.owner.name)]) ++
    parameters 0 s.method.params

/-- The code that binds incoming values to the variables from `x` on. -/
def bindings : VarId → List (Incoming × ValueType) → List Instruction
  | _, [] => []
  | x, v :: vs => .bind x v.1 :: bindings (x + 1) vs

theorem map_snd_parameters :
    ∀ (i : Nat) (ts : List ValueType), (parameters i ts).map Prod.snd = ts
  | _, [] => rfl
  | i, t :: ts => by rw [parameters, List.map_cons, map_snd_parameters (i + 1) ts]

theorem map_snd_arrivals (s : Subject) : s.arrivals.map Prod.snd = s.incoming := by
  unfold arrivals incoming
  split <;> simp [map_snd_parameters]

theorem getElem?_incoming {s : Subject} {x : VarId} {v : Incoming × ValueType}
    (hx : s.arrivals[x]? = some v) : s.incoming[x]? = some v.2 := by
  rw [← map_snd_arrivals, List.getElem?_map, hx]
  rfl

theorem length_bindings :
    ∀ (x : VarId) (vs : List (Incoming × ValueType)), (bindings x vs).length = vs.length
  | _, [] => rfl
  | x, v :: vs => by rw [bindings, List.length_cons, length_bindings (x + 1) vs, List.length_cons]

theorem bind_mem_bindings {y : VarId} {source : Incoming} :
    ∀ {x : VarId} {vs : List (Incoming × ValueType)}, Instruction.bind y source ∈ bindings x vs ↔
      ∃ k t, y = x + k ∧ vs[k]? = some (source, t)
  | x, [] => by simp [bindings]
  | x, v :: vs => by
    rw [bindings, List.mem_cons, bind_mem_bindings (x := x + 1)]
    constructor
    · rintro (h | ⟨k, t, hy, hk⟩)
      · cases h
        exact ⟨0, v.2, rfl, rfl⟩
      · exact ⟨k + 1, t, hy.trans (Nat.add_right_comm x 1 k), hk⟩
    · rintro ⟨_ | k, t, hy, hk⟩
      · cases hk
        exact .inl (by rw [hy]; rfl)
      · exact .inr ⟨k, t, hy.trans (Nat.add_right_comm x 1 k).symm, hk⟩

theorem eq_bind_of_mem_bindings {i : Instruction} :
    ∀ {x : VarId} {vs : List (Incoming × ValueType)}, i ∈ bindings x vs →
      ∃ y source, i = .bind y source
  | _, [], h => by cases h
  | x, v :: vs, h => by
    rcases List.mem_cons.1 h with rfl | h
    · exact ⟨x, v.1, rfl⟩
    · exact eq_bind_of_mem_bindings h

end Subject

/-! ## The start of a draft -/

namespace Draft

/-- The draft with an incoming value bound to a new variable. -/
def receive (d : Draft) (v : Incoming × ValueType) : Draft :=
  (d.newVar v.2).1.push (.bind d.declared.length v.1)

theorem bindParameters_eq : ∀ (d : Draft) (i : Nat) (ts : List ValueType),
    d.bindParameters i ts = (Subject.parameters i ts).foldl receive d
  | _, _, [] => rfl
  | d, i, t :: ts => bindParameters_eq (d.receive (.parameter (UInt16.ofNat i), t)) (i + 1) ts

theorem start_eq (s : Subject) : start s = s.arrivals.foldl receive empty := by
  unfold start Subject.arrivals
  simp only [bindParameters_eq]
  split <;> rfl

theorem sound_empty (a : Abstraction) (g : FieldRef) : empty.Sound a g := by
  have ho : ∀ x, empty.body.origins x = [] := fun _ => rfl
  refine ⟨fun i hi => (List.not_mem_nil hi).elim, fun x _ => (ho x ▸ Nat.zero_le 1), ?_, ?_, ?_⟩
  · exact fun r hr => nomatch hr
  · exact fun t x hx => (List.not_mem_nil hx).elim
  · exact fun x hx => nomatch hx

/-- What a draft is after incoming values have been bound. -/
theorem receive_run (a : Abstraction) (g : FieldRef) :
    ∀ (vs : List (Incoming × ValueType)) (d : Draft),
      (vs.foldl receive d).declared.map Variable.type =
          d.declared.map Variable.type ++ vs.map Prod.snd ∧
        (vs.foldl receive d).code = d.code ++ Subject.bindings d.declared.length vs ∧
        (vs.foldl receive d).initialized = d.initialized ∧
        (d.Sound a g → (vs.foldl receive d).Sound a g)
  | [], d => ⟨by simp, by simp [Subject.bindings], rfl, id⟩
  | v :: vs, d => by
    obtain ⟨ht, hcode, hinit, hs⟩ := receive_run a g vs (d.receive v)
    have hl : (d.receive v).declared.length = d.declared.length + 1 := by
      simp [receive, newVar, Draft.push]
    rw [List.foldl_cons]
    refine ⟨?_, ?_, hinit, fun h => hs (h.introduce v.2 rfl fun x hx => .inl ?_)⟩
    · rw [ht]
      simp [receive, newVar, Draft.push]
    · rw [hcode, hl]
      simp [receive, newVar, Draft.push, Subject.bindings]
    · simpa [Instruction.vars] using hx

theorem length_start (s : Subject) : (start s).declared.length = s.incoming.length := by
  obtain ⟨ht, _⟩ := receive_run .perUnit .guard s.arrivals empty
  rw [start_eq, ← s.map_snd_arrivals, ← List.length_map (f := Variable.type), ht]
  rfl

end Draft

theorem Step.emitAll_eq_ok {a : Abstraction} {g : FieldRef} :
    ∀ {ss : List (Except SynthesisError Step)} {d d' : Draft},
      Step.emitAll a g d ss = (.ok (), d') →
        ∃ steps : List Step, ss = steps.map .ok ∧ d' = steps.foldl (Step.emit a g) d
  | [], d, d', h => ⟨[], rfl, (Prod.mk.inj h).2.symm⟩
  | .error e :: _, d, d', h => by
    cases (Prod.mk.inj h).1
  | .ok s :: ss, d, d', h => by
    have hrest : Step.emitAll a g (s.emit a g d) ss = (.ok (), d') := h
    obtain ⟨steps, rfl, hd⟩ := Step.emitAll_eq_ok hrest
    exact ⟨s :: steps, rfl, hd⟩

/-- The draft of a stand-in: after its incoming values are bound, it has the code of its steps. -/
structure Drafted (o : Options) (p : Program) (s : Subject) (e : Effects)
    (supers exceptions : List MethodRef) (d : Draft) (code : List Instruction) : Prop where
  superConstructors :
    List.Forall₂ (fun c k => p.superConstructor c = .ok k) s.calledSuperclass?.toList supers
  exceptionConstructors :
    List.Forall₂ (fun c k => p.anyConstructor c = .ok k) e.checkedExceptions exceptions
  plan_eq : s.plan p e (.collect p o.log e) =
    (s.steps p e (.collect p o.log e) supers exceptions).map .ok
  draft_eq : d = (s.steps p e (.collect p o.log e) supers exceptions).foldl
    (Step.emit o.abstraction o.guard) (Draft.start s)
  sound : d.Sound o.abstraction o.guard
  code_eq : d.code = Subject.bindings 0 s.arrivals ++ code
  blocks : Blocks o.abstraction o.guard d s.arrivals.length []
    (s.steps p e (.collect p o.log e) supers exceptions) code
  types : s.incoming <+: d.declared.map Variable.type

theorem Subject.superCall_mem_steps {p : Program} {s : Subject} {e : Effects}
    {r : ReflectiveEffects} {supers exceptions : List MethodRef} {m : MethodRef} :
    Step.superCall m ∈ s.steps p e r supers exceptions ↔ m ∈ supers := by
  have hk : ∀ (x : VarId) (ts : List ValueType), Step.superCall m ∉ keeps x ts := by
    intro x ts
    fun_induction keeps x ts <;> simp_all
  simp [steps, creations, calls, exits, Program.createStep, hk]

theorem Subject.keep_mem_steps {p : Program} {s : Subject} {e : Effects}
    {r : ReflectiveEffects} {supers exceptions : List MethodRef} {x : VarId} :
    Step.keep x ∈ s.steps p e r supers exceptions ↔
      ∃ t, s.incoming[x]? = some t ∧ t.isReferenceLike := by
  have h : Step.keep x ∈ s.steps p e r supers exceptions ↔ Step.keep x ∈ keeps 0 s.incoming := by
    simp [steps, creations, calls, exits, Program.createStep]
  rw [h, keep_mem_keeps]
  simp

theorem Subject.calledSuperclass?_eq_some {s : Subject} {c : String} :
    s.calledSuperclass? = some c ↔
      s.method.isConstructor ∧ s.method.isStatic = false ∧ s.owner.superclass = some c := by
  unfold calledSuperclass?
  split
  · next hc =>
    rw [Bool.and_eq_true, Bool.not_eq_true'] at hc
    simp [hc.1, hc.2]
  · next hc =>
    rw [Bool.and_eq_true, Bool.not_eq_true'] at hc
    simp only [reduceCtorEq, false_iff]
    exact fun h => hc ⟨h.1, h.2.1⟩

theorem Subject.within_start {p : Program} {s : Subject} {e : Effects} {r : ReflectiveEffects}
    {supers exceptions : List MethodRef}
    (hs : List.Forall₂ (fun c k => p.superConstructor c = .ok k) s.calledSuperclass?.toList supers)
    {d : Draft} (hd : d.declared.length = s.incoming.length) :
    ∀ step ∈ s.steps p e r supers exceptions, step.Within d := by
  intro step hstep
  cases step with
  | superCall m =>
    have hm := superCall_mem_steps.1 hstep
    rcases hc : s.calledSuperclass? with _ | c
    · rw [hc] at hs
      cases hs
      cases hm
    · show 0 < d.declared.length
      rw [hd, incoming, (calledSuperclass?_eq_some.1 hc).2.1]
      simp
  | keep x =>
    obtain ⟨t, ht, _⟩ := keep_mem_steps.1 hstep
    show x < d.declared.length
    rw [hd]
    exact (List.getElem?_eq_some_iff.1 ht).1
  | _ => trivial

theorem Options.write_eq_ok {o : Options} {p : Program} {s : Subject} {e : Effects} {st : StandIn}
    (h : (o.write p s e).outcome = .ok st) :
    ∃ supers exceptions d code, Drafted o p s e supers exceptions d code ∧
      st = ⟨d.body.tidy, e⟩ := by
  unfold write at h
  rcases hrun : Step.emitAll o.abstraction o.guard (Draft.start s)
    (s.plan p e (.collect p o.log e)) with ⟨_ | _, d⟩
  · simp only [hrun] at h
    cases h
  simp only [hrun] at h
  cases h
  obtain ⟨steps, hplan, rfl⟩ := Step.emitAll_eq_ok hrun
  obtain ⟨supers, exceptions, hsup, hex, rfl⟩ := Subject.plan_eq_ok hplan
  obtain ⟨ht, hcode, hinit, hsound⟩ :=
    Draft.receive_run o.abstraction o.guard s.arrivals Draft.empty
  rw [← Draft.start_eq] at ht hcode hinit hsound
  have ht' : (Draft.start s).declared.map Variable.type = s.incoming := by
    rw [ht, Subject.map_snd_arrivals]
    rfl
  have hlen : (Draft.start s).code.length = s.arrivals.length := by
    rw [hcode]
    exact Subject.length_bindings _ _
  obtain ⟨hg, ⟨code, hc, hw⟩, hs'⟩ := blocks_run (a := o.abstraction) (g := o.guard)
    (s.steps p e (.collect p o.log e) supers exceptions) (Draft.start s)
  rw [hlen, hinit] at hw
  refine ⟨supers, exceptions, _, code, ⟨hsup, hex, hplan, rfl, ?_, ?_, hw, ?_⟩, rfl⟩
  · refine hs' (hsound (Draft.sound_empty _ _)) (Subject.within_start hsup ?_)
    rw [← ht', List.length_map]
  · rw [hc, hcode]
    rfl
  · rw [← ht']
    exact hg.declared.map _

/-- A stand-in is the tidied draft of its steps. -/
theorem standIn_eq_ok {o : Options} {p : Program} {m : MethodRef} {st : StandIn}
    (h : (o.standIn p m).outcome = .ok st) :
    ∃ s supers exceptions d code, Options.subject p m = .ok s ∧ s.effects = .ok st.effects ∧
      Drafted o p s st.effects supers exceptions d code ∧ st.body = d.body.tidy := by
  unfold Options.standIn at h
  rcases hs : Options.subject p m with e | s
  · rw [hs] at h
    cases h
  rw [hs] at h
  rcases he : s.effects with err | e
  · simp only [he] at h
    cases h
  simp only [he] at h
  obtain ⟨supers, exceptions, d, code, hd, rfl⟩ := Options.write_eq_ok h
  exact ⟨s, supers, exceptions, d, code, rfl, he, hd, rfl⟩

end Standin
