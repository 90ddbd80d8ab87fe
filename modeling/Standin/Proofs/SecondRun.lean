import Standin.Proofs.Batch
import Standin.Proofs.CallEdges
import Standin.Proofs.Closure
import Standin.Proofs.Feasibility
import Standin.Proofs.Order

/-!
# Replacing a library twice

A stand-in can be scanned again. What it creates for handled exceptions is an object creation then,
and the call of a static initializer is a call like any other; but the call of the superclass
constructor is seen for what it is, and so the stand-in for a stand-in names the same calls
(`Drafted.mem_targets_again`). Replacing the library of a program a second time therefore keeps
every edge of the call graph and adds none (`replaceLibrary_twice`).

This takes two things for granted: no constructor is static, and no result of a constructor is
assigned (`Program.IsRegular`). The second scan cannot tell the exception that a static constructor
creates from the call of a superclass constructor, nor a dropped result from a created object.
-/

namespace Standin

open Draft

/-! ## What a stand-in does not have -/

/-- The instruction assigns to an array element. -/
def Instruction.isElementWrite : Instruction → Bool
  | assign dest _ => dest.isArrayElement
  | _ => false

theorem Draft.Preparation.isElementWrite {a : Abstraction} {d : Draft} {i : Instruction}
    (h : Preparation a d i) : i.isElementWrite = false := by
  cases h <;> rfl

theorem Draft.Keeps.isElementWrite {a : Abstraction} {d : Draft} {x : VarId} {k : Instruction}
    (h : d.Keeps a x k) : k.isElementWrite = false := by
  cases a with
  | shared f =>
    obtain rfl : k = .assign (.staticField f) (.use (.var x)) := h
    rfl
  | perUnit =>
    obtain ⟨y, _, rfl⟩ : ∃ y, d.representative = some y ∧ k = .assign (.var y) (.use (.var x)) := h
    rfl

theorem isElementWrite_of_initializerCall {seen : List String} {c : String}
    {init : Option MethodRef} {i : Instruction} (hi : i ∈ initializerCall seen c init) :
    i.isElementWrite = false := by
  unfold initializerCall at hi
  split at hi
  · cases hi
  · obtain ⟨m, _, rfl⟩ := List.mem_map.1 hi
    rfl

theorem Block.isElementWrite {a : Abstraction} {g : FieldRef} {d : Draft} {pos : Nat}
    {seen : List String} {s : Step} {b : List Instruction} (hb : Block a g d pos seen s b)
    {i : Instruction} (hi : i ∈ b) : i.isElementWrite = false := by
  cases hb with
  | superCall hq | statement hq | droppedResult hq | retValue hq =>
    rcases List.mem_append.1 hi with hi | hi
    · exact (hq i hi).isElementWrite
    · rw [List.mem_singleton.1 hi]
      rfl
  | keep hk => exact List.mem_singleton.1 hi ▸ hk.isElementWrite
  | create _ hq _ hk =>
    simp only [List.cons_append, List.append_assoc, List.mem_cons, List.mem_append,
      List.not_mem_nil, or_false] at hi
    rcases hi with rfl | hi | rfl | hi | rfl
    · rfl
    · exact (hq i hi).isElementWrite
    · rfl
    · exact isElementWrite_of_initializerCall hi
    · exact hk.isElementWrite
  | createArray _ hk =>
    simp only [List.mem_cons, List.not_mem_nil, or_false] at hi
    rcases hi with rfl | rfl
    · rfl
    · exact hk.isElementWrite
  | runInitializer => exact isElementWrite_of_initializerCall hi
  | keptResult hq _ _ _ _ hk =>
    simp only [List.mem_append, List.mem_cons, List.not_mem_nil, or_false] at hi
    rcases hi with hi | rfl | rfl
    · exact (hq i hi).isElementWrite
    · rfl
    · exact hk.isElementWrite
  | mayThrow hq _ _ hl =>
    simp only [List.mem_append, List.mem_cons, List.not_mem_nil, or_false] at hi
    rcases hi with (hi | hi) | rfl | rfl | rfl
    · exact (hq i hi).isElementWrite
    · rcases hl with rfl | rfl
      · cases hi
      · rw [List.mem_singleton.1 hi]
        rfl
    all_goals rfl
  | retVoid =>
    rw [List.mem_singleton.1 hi]
    rfl

/-! ## Constructors and calls -/

/-- The call whose result the instruction assigns. -/
def Instruction.assignedCall? : Instruction → Option Invocation
  | assign _ (.invoke i) => some i
  | _ => none

/-- The calls whose results are assigned. -/
def Body.assigned (b : Body) : List Invocation :=
  b.code.filterMap Instruction.assignedCall?

/-- No constructor is static, and no result of a constructor is assigned. -/
def Program.IsRegular (p : Program) : Prop :=
  ∀ c ∈ p.classes, ∀ m ∈ c.methods, (m.isConstructor → m.isStatic = false) ∧
    ∀ b ∈ m.body, ∀ i ∈ b.assigned, i.callee.isConstructor = false

instance (p : Program) : Decidable p.IsRegular :=
  inferInstanceAs (Decidable (∀ c ∈ p.classes, ∀ m ∈ c.methods, _ ∧ ∀ b ∈ m.body, _))

/-- A constructor without parameters is what is chosen where any will do. -/
theorem Program.anyConstructor_of_superConstructor {p : Program} {c : String} {k : MethodRef}
    (h : p.superConstructor c = .ok k) : p.anyConstructor c = .ok k := by
  unfold superConstructor at h
  unfold anyConstructor
  rcases hc : p.declared c with err | d
  · rw [hc] at h
    cases h
  · simp only [hc, bind, Except.bind] at h ⊢
    rcases hd : d.defaultConstructor? with _ | m
    · rw [hd] at h
      cases h
    · rw [hd] at h
      exact h

namespace Subject

variable {s : Subject} {i j : Invocation}

/-- The method with another body. -/
def withBody (s : Subject) (b : Body) : Subject :=
  ⟨s.owner, { s.method with body := some b }, b⟩

/-- Whether a call is one of a superclass constructor can be told from whom it names. -/
theorem isSuperConstructorCall_congr (h : i.target = j.target) :
    s.isSuperConstructorCall i = s.isSuperConstructorCall j := by
  obtain ⟨hd, hc⟩ := Prod.mk.inj h
  simp only [isSuperConstructorCall, hd, hc]

/-- A special call of a constructor is one of a superclass constructor or creates an object. -/
theorem isSuper_or_isObjectCreation {k : MethodRef} (hi : i.target = (.special, k))
    (hk : k.isConstructor) : s.isSuperConstructorCall i ∨ s.isObjectCreation i := by
  obtain ⟨hd, rfl⟩ := Prod.mk.inj hi
  by_cases hs : s.isSuperConstructorCall i
  · exact .inl hs
  · exact .inr (by simp [isObjectCreation, hd, hk, hs])

theorem isSuperConstructorCall_iff :
    s.isSuperConstructorCall i ↔ s.owner.superclass = some i.callee.className ∧
      i.dispatch = .special ∧ s.method.isConstructor ∧ i.callee.isConstructor := by
  simp [isSuperConstructorCall, and_assoc]

theorem target_of_isObjectCreation (h : s.isObjectCreation i) :
    i.target = (.special, i.callee) ∧ i.callee.isConstructor ∧ ¬s.isSuperConstructorCall i := by
  simp only [isObjectCreation, Bool.and_eq_true, decide_eq_true_eq, Bool.not_eq_true'] at h
  exact ⟨Prod.ext h.1.1 rfl, h.1.2, by simp [h.2]⟩

/-- The method is not static if it is a constructor, and the body assigns no result of one. -/
structure IsRegular (s : Subject) : Prop where
  constructor : s.method.isConstructor → s.method.isStatic = false
  assigned : ∀ i ∈ s.body.assigned, i.callee.isConstructor = false

theorem IsRegular.not_isConstructor (hs : s.IsRegular) {e : Effects} (he : s.effects = .ok e)
    {c : Call} (hc : c ∈ e.statements ++ e.results) (hd : c.dispatch = .special) :
    c.callee.isConstructor = false := by
  rcases List.mem_append.1 hc with hc | hc
  · obtain ⟨i, _, hi⟩ := exists_of_has (f := .statement c) he hc
    cases hi with
    | @statement i _ hcall ho hsup =>
      by_contra hk
      have ht : i.target = (.special, c.callee) := by
        rw [← call_eq_ok hcall, ← hd]
        rfl
      rcases isSuper_or_isObjectCreation ht (by simpa using hk) with h | h
      · exact hsup h
      · exact ho h
  · obtain ⟨i, hmem, hi⟩ := exists_of_has (f := .result c) he hc
    cases hi with
    | @result dest i _ hcall =>
      rw [show c.callee = i.callee from congrArg Prod.snd (call_eq_ok hcall)]
      exact hs.assigned i (List.mem_filterMap.2 ⟨_, hmem, rfl⟩)

end Subject

/-! ## The stand-in for a stand-in -/

namespace Drafted

variable {o : Options} {p : Program} {s : Subject} {e : Effects}
  {supers exceptions : List MethodRef} {d : Draft} {code : List Instruction}

theorem isElementWrite (h : Drafted o p s e supers exceptions d code) {i : Instruction}
    (hi : i ∈ d.body.tidy.code) : i.isElementWrite = false := by
  obtain ⟨j, hj, g, rfl⟩ := Body.exists_of_mem_code_tidy hi
  have hkept : ((j.mapTarget g).mapVars d.body.renumbering).isElementWrite = j.isElementWrite := by
    rcases j with ⟨x, source⟩ | ⟨dest, value⟩ | c | v | ⟨v, t⟩ | t | v | _ <;> try rfl
    cases dest <;> rfl
  rw [hkept]
  have hj : j ∈ Subject.bindings 0 s.arrivals ++ code := h.code_eq ▸ hj
  rcases List.mem_append.1 hj with hj | hj
  · obtain ⟨x, source, rfl⟩ := Subject.eq_bind_of_mem_bindings hj
    rfl
  · obtain ⟨_, _, _, b, hb, hjb, _⟩ := h.blocks.exists_of_mem hj
    exact hb.isElementWrite hjb

theorem mem_arrayCreations (h : Drafted o p s e supers exceptions d code) (hlog : o.log = .empty)
    {dest : Place} {t : ValueType} {lengths : List Operand}
    (hi : .assign dest (.newArray t lengths) ∈ d.body.tidy.code) : t ∈ e.arrayCreations := by
  have hmem : (dest, Expr.newArray t lengths) ∈ d.body.tidy.allocations :=
    List.mem_filterMap.2 ⟨_, hi, rfl⟩
  rw [Body.allocations_tidy] at hmem
  obtain ⟨⟨dest', value⟩, hvalue, heq⟩ := List.mem_map.1 hmem
  have hall : value ∈ e.allocated .empty exceptions := by
    rw [← ReflectiveEffects.collect_empty p e, ← hlog, ← h.calls.2.1]
    exact List.mem_map_of_mem hvalue
  have heq : value.mapVars d.body.renumbering = .newArray t lengths := congrArg Prod.snd heq
  simp only [Effects.allocated, ReflectiveEffects.empty, List.map_nil, List.append_nil,
    List.mem_append, List.mem_map] at hall
  rcases hall with (⟨k, _, rfl⟩ | ⟨t', ht', rfl⟩) | ⟨k, _, rfl⟩
  · cases heq
  · cases heq
    exact ht'
  · cases heq

/-- A constructor that a stand-in calls is that of the superclass or creates an object. -/
theorem mem_supers_or_created (h : Drafted o p s e supers exceptions d code)
    (hlog : o.log = .empty) (hs : s.IsRegular) (he : s.effects = .ok e) {k : MethodRef}
    (hk : k.isConstructor) (ht : (.special, k) ∈ d.body.tidy.invocations.map Invocation.target) :
    k ∈ supers ∨ k ∈ e.created .empty exceptions := by
  rw [h.mem_targets_iff, hlog, ReflectiveEffects.collect_empty] at ht
  rcases ht with ⟨k', hk', ht⟩ | ⟨k', hk', ht⟩ | ⟨_, _, k', _, ht⟩ | ⟨c, hc, ht⟩
  · cases ht
    exact .inl hk'
  · cases ht
    exact .inr hk'
  · cases ht
  · obtain ⟨hd, rfl⟩ := Prod.mk.inj ht
    have := hs.not_isConstructor he (by simpa [ReflectiveEffects.empty] using hc) hd.symm
    rw [hk] at this
    cases this

theorem isSuper_of_mem_supers (h : Drafted o p s e supers exceptions d code) {k : MethodRef}
    (hk : k ∈ supers) {i : Invocation} (hi : i.target = (.special, k)) :
    s.isSuperConstructorCall i := by
  obtain ⟨hd, rfl⟩ := Prod.mk.inj hi
  obtain ⟨c, hc, hk⟩ := exists_of_mem_forall₂ h.superConstructors hk
  obtain ⟨hm, _, hsup⟩ := Subject.calledSuperclass?_eq_some.1 (Option.mem_toList.1 hc)
  obtain ⟨rfl, hcons⟩ := Program.superConstructor_eq_ok hk
  exact Subject.isSuperConstructorCall_iff.2 ⟨hsup, hd, hm, hcons⟩

/-- What a scan of the stand-in takes for the call of a superclass constructor is one. -/
theorem mem_supers_of_isSuper (h : Drafted o p s e supers exceptions d code)
    (hlog : o.log = .empty) (hs : s.IsRegular) (he : s.effects = .ok e) {i : Invocation}
    (hi : i ∈ d.body.tidy.invocations) (hsuper : s.isSuperConstructorCall i) :
    i.callee ∈ supers := by
  obtain ⟨hc, hd, hm, hk⟩ := Subject.isSuperConstructorCall_iff.1 hsuper
  have ht : i.target = (.special, i.callee) := Prod.ext hd rfl
  rcases h.mem_supers_or_created hlog hs he hk (ht ▸ List.mem_map_of_mem hi) with hmem | hmem
  · exact hmem
  · simp only [Effects.created, ReflectiveEffects.empty, List.append_nil, List.mem_append] at hmem
    rcases hmem with hmem | hmem
    · obtain ⟨_, _, hshow⟩ := Subject.exists_of_has (f := .objectCreation i.callee) he hmem
      generalize hcallee : i.callee = k at hshow
      cases hshow with
      | @objectCreation j ho =>
        obtain ⟨hj, _, hnot⟩ := Subject.target_of_isObjectCreation ho
        refine absurd ?_ hnot
        rwa [← Subject.isSuperConstructorCall_congr (ht.trans ((hcallee ▸ hj).symm))]
    -- A handled exception may be of the superclass; it is then created with the same constructor.
    · obtain ⟨c, _, hany⟩ := exists_of_mem_forall₂ h.exceptionConstructors hmem
      obtain rfl := (Program.anyConstructor_eq_ok hany).1
      have hcalled : s.calledSuperclass? = some i.callee.className :=
        Subject.calledSuperclass?_eq_some.2 ⟨hm, hs.constructor hm, hc⟩
      have hsupers := h.superConstructors
      rw [hcalled, Option.toList_some] at hsupers
      cases hsupers with
      | cons hk' hnil =>
        rw [Program.anyConstructor_of_superConstructor hk'] at hany
        cases hany
        exact List.mem_cons_self

theorem isOk_creation (h : Drafted o p s e supers exceptions d code) {k : MethodRef}
    (hk : k ∈ e.created .empty exceptions) : (p.creation k).isOk := by
  obtain ⟨_, hcreations, _⟩ := Subject.isOk_plan_iff.1 h.isOk_plan
  obtain ⟨hobjects, _, hexceptions, _⟩ := Subject.isOk_creationSteps_iff.1 hcreations
  simp only [Effects.created, ReflectiveEffects.empty, List.append_nil, List.mem_append] at hk
  rcases hk with hk | hk
  · exact hobjects k (List.mem_append_left _ hk)
  · obtain ⟨c, hc, hany⟩ := exists_of_mem_forall₂ h.exceptionConstructors hk
    have hcreation : p.exceptionCreation c = p.creation k := by
      unfold Program.exceptionCreation
      rw [hany]
      rfl
    rw [← hcreation]
    exact hexceptions c hc

theorem isOk_arrayCreation (h : Drafted o p s e supers exceptions d code) {t : ValueType}
    (ht : t ∈ e.arrayCreations) : t.arrayCreation.isOk := by
  obtain ⟨_, hcreations, _⟩ := Subject.isOk_plan_iff.1 h.isOk_plan
  exact (Subject.isOk_creationSteps_iff.1 hcreations).2.1 t (List.mem_append_left _ ht)

theorem dispatch_ne_dynamic (h : Drafted o p s e supers exceptions d code)
    {t : Dispatch × MethodRef} (ht : t ∈ d.body.tidy.invocations.map Invocation.target) :
    t.1 ≠ .dynamic := by
  rw [h.mem_targets_iff] at ht
  rcases ht with ⟨k, _, rfl⟩ | ⟨k, _, rfl⟩ | ⟨_, _, k, _, rfl⟩ | ⟨c, hc, rfl⟩
  · exact Dispatch.noConfusion
  · exact Dispatch.noConfusion
  · exact Dispatch.noConfusion
  · obtain ⟨_, _, hcalls⟩ := Subject.isOk_plan_iff.1 h.isOk_plan
    exact Subject.isOk_callSteps_iff.1 hcalls c hc

section Again

variable {e' : Effects}

theorem target_mem_of_effects_again (he' : (s.withBody d.body.tidy).effects = .ok e')
    {t : Dispatch × MethodRef} (ht : t ∈ e'.targets) :
    t ∈ d.body.tidy.invocations.map Invocation.target := by
  obtain ⟨i, hi, c, hc, rfl⟩ := Subject.exists_of_mem_effects he' ht
  exact List.mem_map_of_mem (List.mem_filterMap.2 ⟨i, hi, hc⟩)

theorem created_again (h : Drafted o p s e supers exceptions d code) (hlog : o.log = .empty)
    (hs : s.IsRegular) (he : s.effects = .ok e)
    (he' : (s.withBody d.body.tidy).effects = .ok e') {k : MethodRef}
    (hk : k ∈ e'.objectCreations) : k ∈ e.created .empty exceptions := by
  obtain ⟨j, hj, hshow⟩ := Subject.exists_of_has (f := .objectCreation k) he' hk
  cases hshow with
  | @objectCreation i ho =>
    obtain ⟨ht, hcons, hnot⟩ := Subject.target_of_isObjectCreation ho
    have hi : i ∈ d.body.tidy.invocations := List.mem_filterMap.2 ⟨_, hj, rfl⟩
    rcases h.mem_supers_or_created hlog hs he hcons (ht ▸ List.mem_map_of_mem hi) with hk | hk
    · exact absurd (h.isSuper_of_mem_supers hk ht) hnot
    · exact hk

theorem checkedExceptions_again (he' : (s.withBody d.body.tidy).effects = .ok e') :
    e'.checkedExceptions = [] := by
  obtain ⟨e'', _, rfl⟩ := Subject.effects_eq_ok he'
  have hhandlers : (s.withBody d.body.tidy).body.handlers = [] :=
    Body.handlers_tidy (b := d.body) rfl
  rw [hhandlers]
  rfl

/-- A stand-in has a stand-in. -/
theorem isOk_plan_again (h : Drafted o p s e supers exceptions d code) (hlog : o.log = .empty)
    (hs : s.IsRegular) (he : s.effects = .ok e)
    (he' : (s.withBody d.body.tidy).effects = .ok e') :
    ((s.withBody d.body.tidy).plan p e' .empty).all Except.isOk := by
  obtain ⟨hsuper, _, _⟩ := Subject.isOk_plan_iff.1 h.isOk_plan
  refine Subject.isOk_plan_iff.2 ⟨hsuper, ?_, ?_⟩
  · simp only [Subject.isOk_creationSteps_iff, checkedExceptions_again he',
      ReflectiveEffects.empty, List.append_nil]
    refine ⟨fun k hk => ?_, fun t ht => ?_, by simp, by simp⟩
    · exact h.isOk_creation (h.created_again hlog hs he he' hk)
    · obtain ⟨j, hj, hshow⟩ := Subject.exists_of_has (f := .arrayCreation t) he' ht
      cases hshow with
      | arrayCreation => exact h.isOk_arrayCreation (h.mem_arrayCreations hlog hj)
  · refine Subject.isOk_callSteps_iff.2 fun c hc => ?_
    rw [ReflectiveEffects.empty, List.append_nil] at hc
    have ht : c.target ∈ e'.targets := List.mem_append_right _ (List.mem_map_of_mem hc)
    exact h.dispatch_ne_dynamic (target_mem_of_effects_again he' ht)

theorem supers_again (h : Drafted o p s e supers exceptions d code) {b : Body}
    {supers' exceptions' : List MethodRef} {d' : Draft} {code' : List Instruction}
    (h' : Drafted o p (s.withBody b) e' supers' exceptions' d' code') : supers' = supers := by
  have hsuper : List.Forall₂ (fun c k => p.superConstructor c = .ok k)
      s.calledSuperclass?.toList supers := h.superConstructors
  have hsuper' : List.Forall₂ (fun c k => p.superConstructor c = .ok k)
      s.calledSuperclass?.toList supers' := h'.superConstructors
  exact List.right_unique_forall₂' (fun c k k' hk hk' => Except.ok.inj (hk.symm.trans hk'))
    hsuper' hsuper

/-- The stand-in for a stand-in names the same calls. -/
theorem mem_targets_again (h : Drafted o p s e supers exceptions d code) (hlog : o.log = .empty)
    (hs : s.IsRegular) (he : s.effects = .ok e)
    (he' : (s.withBody d.body.tidy).effects = .ok e') {supers' exceptions' : List MethodRef}
    {d' : Draft} {code' : List Instruction}
    (h' : Drafted o p (s.withBody d.body.tidy) e' supers' exceptions' d' code')
    {t : Dispatch × MethodRef} :
    t ∈ d'.body.tidy.invocations.map Invocation.target ↔
      t ∈ d.body.tidy.invocations.map Invocation.target := by
  obtain rfl := h.supers_again h'
  have hnone : exceptions' = [] := by
    have := h'.exceptionConstructors
    rw [checkedExceptions_again he'] at this
    cases this
    rfl
  constructor
  · intro ht
    have hcreated : ∀ {k}, k ∈ e'.created .empty [] → k ∈ e.created .empty exceptions := by
      intro k hk
      refine h.created_again hlog hs he he' ?_
      simpa [Effects.created, ReflectiveEffects.empty] using hk
    rw [h'.mem_targets_iff, hlog, ReflectiveEffects.collect_empty, hnone] at ht
    rcases ht with ⟨k, hk, rfl⟩ | ⟨k, hk, rfl⟩ | ⟨c, hc, k, hk, rfl⟩ | ⟨c, hc, rfl⟩
    · exact h.mem_targets_iff.2 (.inl ⟨k, hk, rfl⟩)
    · rw [h.mem_targets_iff, hlog, ReflectiveEffects.collect_empty]
      exact .inr (.inl ⟨k, hcreated hk, rfl⟩)
    · simp only [Effects.initialized, ReflectiveEffects.empty, List.append_nil] at hc
      obtain ⟨k', hk', rfl⟩ := List.mem_map.1 hc
      have hc' := List.mem_map_of_mem (f := MethodRef.className) (hcreated hk')
      rw [h.mem_targets_iff, hlog, ReflectiveEffects.collect_empty]
      exact .inr (.inr (.inl ⟨_, List.mem_append_left _ hc', k, hk, rfl⟩))
    · refine target_mem_of_effects_again he' (List.mem_append_right _ (List.mem_map_of_mem ?_))
      simpa [ReflectiveEffects.empty, Effects.calls] using hc
  · intro ht
    obtain ⟨c, hc, rfl⟩ := List.mem_map.1 ht
    obtain ⟨i, hi, hcall⟩ := List.mem_filterMap.1 hc
    obtain ⟨j, hj⟩ := List.mem_iff_getElem?.1 hi
    rcases Subject.mem_targets_of_effects (s := s.withBody d.body.tidy) he' hj hcall with
      hmem | ⟨_, hsuper⟩ | ⟨_, dest, rfl, hdest⟩
    · exact h'.mem_targets hmem
    · have hk := h.mem_supers_of_isSuper hlog hs he hc hsuper
      have hd := (Subject.isSuperConstructorCall_iff.1 hsuper).2.1
      exact h'.mem_targets_iff.2 (.inl ⟨_, hk, Prod.ext hd rfl⟩)
    · have hwrite : dest.isArrayElement = false := h.isElementWrite hi
      rw [hdest] at hwrite
      cases hwrite

end Again

end Drafted

/-! ## The second run -/

theorem Options.subject_eq_ok {p : Program} {m : MethodRef} {s : Subject}
    (h : subject p m = .ok s) :
    s.owner ∈ p.classes ∧ s.owner.name = m.className ∧ s.owner.method? m = some s.method ∧
      s.method.body = some s.body := by
  obtain ⟨hres, hb⟩ := subject_eq_ok_iff.1 h
  exact ⟨hres.owner, hres.name, hres.method, hb⟩

theorem Program.IsRegular.subject {p : Program} (hp : p.IsRegular) {m : MethodRef} {s : Subject}
    (h : Options.subject p m = .ok s) : s.IsRegular := by
  obtain ⟨hc, _, hm, hb⟩ := Options.subject_eq_ok h
  obtain ⟨hcons, hassigned⟩ := hp s.owner hc s.method (List.mem_of_find?_eq_some hm)
  exact ⟨hcons, hassigned s.body hb⟩

namespace Options

variable {o : Options} {p q : Program} {m : MethodRef}

theorem isSome_effectsOf? (o : Options) (p : Program) (m : MethodRef) :
    (o.effectsOf? p m).isSome = (o.standIn p m).outcome.isOk := by
  unfold effectsOf?
  rcases (o.standIn p m).outcome with err | st <;> rfl

/-- A method that has no stand-in has none in the second run, for the same reason. -/
theorem standIn_again_of_error
    (hq : q.classes = p.classes.map (o.rewritten p p.libraryMethods)) (hm : m ∈ p.libraryMethods)
    {err : SynthesisError} (h : (o.standIn p m).outcome = .error err) :
    o.standIn q m = o.standIn p m := by
  let others := p.libraryMethods.filter (· ≠ m)
  have hothers : ∀ r, r ∈ p.libraryMethods ↔ r ∈ others ++ [m] := by
    intro r
    by_cases hr : r = m
    · simp [hr, hm]
    · simp [others, hr]
  have hq' : q.classes = p.classes.map (o.rewritten p others) := by
    rw [hq]
    refine List.map_congr_left fun c _ => ?_
    rw [rewritten_congr hothers, rewritten_of_error h]
  exact standIn_of_rewritten hq' (by simp [others])

theorem subject_of_standIn (hq : q.classes = p.classes.map (o.rewritten p p.libraryMethods))
    (hm : m ∈ p.libraryMethods) {s : Subject} (hs : subject p m = .ok s) {st : StandIn}
    (h : (o.standIn p m).outcome = .ok st) :
    ∃ s', subject q m = .ok s' ∧ s'.skeleton = (s.withBody st.body).skeleton := by
  obtain ⟨hc, hname, hmethod, hb⟩ := subject_eq_ok hs
  have hclass := Program.class?_of_map hq (fun _ => rfl) m.className
  rw [← hname, Program.class?_of_mem hc, Option.map_some] at hclass
  have hfound : (o.rewritten p p.libraryMethods s.owner).method? m =
      some { s.method with body := some st.body } := by
    rw [method?_rewritten hname, hmethod, Option.map_some, if_pos hm, h]
    rfl
  refine ⟨⟨o.rewritten p p.libraryMethods s.owner, { s.method with body := some st.body }, st.body⟩,
    ?_, ?_⟩
  · unfold subject Program.lookup
    simp only [← hname, hclass, hfound]
  · simp only [Subject.skeleton, Subject.withBody, skeleton_rewritten]

/-- A method that has a stand-in has one in the second run, which names the same calls. -/
theorem standIn_again_of_ok (hlog : o.log = .empty) (hp : p.IsRegular)
    (hq : q.classes = p.classes.map (o.rewritten p p.libraryMethods)) (hm : m ∈ p.libraryMethods)
    {st : StandIn} (h : (o.standIn p m).outcome = .ok st) :
    ∃ st', (o.standIn q m).outcome = .ok st' ∧ ∀ t,
      t ∈ st'.body.invocations.map Invocation.target ↔
        t ∈ st.body.invocations.map Invocation.target := by
  obtain ⟨s, supers, exceptions, d, code, hs, he, hd, hbody⟩ := standIn_eq_ok h
  have hregular := hp.subject hs
  obtain ⟨s', hs', hskel⟩ := subject_of_standIn hq hm hs h
  rw [hbody] at hskel
  obtain ⟨e', he'⟩ := Subject.exists_effects (s := s.withBody d.body.tidy) hd.sound.inScope.tidy
  have hwrite : o.standIn q m = o.write p (s.withBody d.body.tidy) e' := by
    unfold standIn
    rw [hs']
    simp only [← s'.effects_skeleton, hskel, Subject.effects_skeleton, he']
    rw [← write_skeleton, skeleton_of_rewritten hq, hskel, write_skeleton]
  have hok : (o.standIn q m).outcome.isOk := by
    rw [hwrite, isOk_write, hlog, ReflectiveEffects.collect_empty]
    exact hd.isOk_plan_again hlog hregular he he'
  rcases hst' : (o.standIn q m).outcome with err | st'
  · rw [hst'] at hok
    cases hok
  · rw [hwrite] at hst'
    obtain ⟨supers', exceptions', d', code', hd', rfl⟩ := write_eq_ok hst'
    refine ⟨_, rfl, fun t => ?_⟩
    rw [hbody]
    exact hd.mem_targets_again hlog hregular he he' hd'

/-- A stand-in takes the place of a body. -/
theorem bodied_rewritten {refs : List MethodRef} {c : ClassDecl} (hc : c ∈ p.classes) :
    (o.rewritten p refs c).bodied.map (fun m => m.ref c.name) =
      c.bodied.map fun m => m.ref c.name := by
  let view : MethodDecl → Bool × MethodRef :=
    fun m => (m.isConcrete && m.body.isSome, m.ref c.name)
  have hview : ∀ ms : List MethodDecl,
      (ms.filter fun m => m.isConcrete && m.body.isSome).map (fun m => m.ref c.name) =
        ((ms.map view).filter Prod.fst).map Prod.snd := by
    intro ms
    rw [List.filter_map, List.map_map]
    rfl
  have hsame : (o.rewritten p refs c).methods.map view = c.methods.map view := by
    refine List.ext_getElem? fun j => ?_
    rcases hm : c.methods[j]? with _ | m
    · simp [rewritten, hm]
    · simp only [rewritten, List.getElem?_map, List.getElem?_mapIdx, hm, Option.map_some,
        Option.some.injEq]
      rcases hst : o.standInFor? p refs c j m with _ | st
      · rfl
      · obtain ⟨b, _, _, _, _, hb, _⟩ := of_standInFor? hc hm hst
        simp [view, hb, MethodDecl.isConcrete, MethodDecl.ref]
  unfold ClassDecl.bodied
  rw [hview, hview, hsame]

theorem libraryMethods_again
    (hq : q.classes = p.classes.map (o.rewritten p p.libraryMethods)) :
    q.libraryMethods = p.libraryMethods := by
  unfold Program.libraryMethods
  rw [hq, List.filter_map, List.flatMap_map]
  refine List.flatMap_congr fun c hc => ?_
  exact bodied_rewritten (List.mem_of_mem_filter hc)

theorem standInFor?_again (hlog : o.log = .empty) (hp : p.IsRegular)
    (hq : q.classes = p.classes.map (o.rewritten p p.libraryMethods)) {c : ClassDecl}
    (hc : c ∈ q.classes) {j : Nat} {m : MethodDecl} (hm : c.methods[j]? = some m) {st : StandIn}
    (h : o.standInFor? q q.libraryMethods c j m = some st) :
    ∃ b, m.body = some b ∧ ∀ t, t ∈ st.body.invocations.map Invocation.target ↔
      t ∈ b.invocations.map Invocation.target := by
  rw [hq] at hc
  obtain ⟨c, hc, rfl⟩ := List.mem_map.1 hc
  simp only [rewritten, List.getElem?_mapIdx] at hm
  obtain ⟨m, hm, rfl⟩ := Option.map_eq_some_iff.1 hm
  obtain ⟨hmem, hfirst, hst⟩ := standInFor?_eq_some.1 h
  rw [libraryMethods_again hq] at hmem
  have hmem : m.ref c.name ∈ p.libraryMethods := hmem
  have hfirst : c.methods.findIdx? (fun n => n.answers (m.ref c.name)) = some j :=
    (findIdx?_of_skeleton (skeleton_rewritten p.libraryMethods c) fun _ => rfl).symm.trans hfirst
  have hst : (o.standIn q (m.ref c.name)).outcome = .ok st := hst
  rcases hfirst' : (o.standIn p (m.ref c.name)).outcome with err | first
  · rw [standIn_again_of_error hq hmem hfirst', hfirst'] at hst
    cases hst
  · obtain ⟨st', hst', htargets⟩ := standIn_again_of_ok hlog hp hq hmem hfirst'
    cases hst'.symm.trans hst
    refine ⟨first.body, ?_, htargets⟩
    simp only [standInFor?_eq_some.2 ⟨hmem, hfirst, hfirst'⟩]
    rfl

end Options

/-- Replacing bodies by bodies that name the same calls keeps the edges. -/
theorem CallGraph.mem_edges_replaceLibrary {o : Options} {p : Program}
    (h : ∀ c ∈ p.classes, ∀ j m, c.methods[j]? = some m → ∀ st,
      o.standInFor? p p.libraryMethods c j m = some st →
        ∃ b, m.body = some b ∧ ∀ t, t ∈ st.body.invocations.map Invocation.target ↔
          t ∈ b.invocations.map Invocation.target) (r : Resolution) (e : MethodRef × MethodRef) :
    e ∈ (ofProgram r (o.replaceLibrary p).program).edges ↔ e ∈ (ofProgram r p).edges := by
  rw [mem_edges_ofProgram]
  constructor
  · rintro ⟨x, hx⟩
    obtain ⟨c, m, hc, _, hm, hb, hold⟩ := hx.of_replaceLibrary
    have hcall := List.mem_map_of_mem (f := Invocation.target) hx.site.call_mem
    rcases hst : o.standInFor? p p.libraryMethods c x.index m with _ | st
    · rw [hst] at hb
      exact hold x.body hb hcall
    · obtain ⟨b, hmb, hsame⟩ := h c hc x.index m hm st hst
      rw [hst] at hb
      have hxb : st.body = x.body := Option.some.inj hb
      exact hold b hmb ((hsame _).1 (hxb ▸ hcall))
  · rw [mem_edges_ofProgram]
    rintro ⟨x, hx⟩
    have hcall := List.mem_map_of_mem (f := Invocation.target) hx.site.call_mem
    rw [← mem_edges_ofProgram]
    rcases hst : o.standInFor? p p.libraryMethods x.owner x.index x.method with _ | st
    · exact hx.mem_edges_replaceLibrary (b := x.body) (by rw [hst, hx.site.body]; rfl) hcall
    · obtain ⟨b, hb, hsame⟩ := h x.owner hx.site.owner x.index x.method hx.site.method st hst
      cases hb.symm.trans hx.site.body
      exact hx.mem_edges_replaceLibrary (b := st.body) (by rw [hst]; rfl) ((hsame _).2 hcall)

/-- What a second run finds is what the first one found. -/
structure Options.Repeats (o : Options) (p : Program) : Prop where
  libraryMethods : (o.replaceLibrary p).program.libraryMethods = p.libraryMethods
  made : ∀ m ∈ p.libraryMethods, (o.standIn (o.replaceLibrary p).program m).outcome.isOk =
    (o.standIn p m).outcome.isOk
  synthesized : (o.replaceLibrary (o.replaceLibrary p).program).report.synthesized =
    (o.replaceLibrary p).report.synthesized
  skipped : (o.replaceLibrary (o.replaceLibrary p).program).report.skipped =
    (o.replaceLibrary p).report.skipped
  edges : ∀ r e,
    e ∈ (CallGraph.ofProgram r (o.replaceLibrary (o.replaceLibrary p).program).program).edges ↔
      e ∈ (CallGraph.ofProgram r (o.replaceLibrary p).program).edges

/-- Replacing a library that has been replaced makes stand-ins for the same methods, skips the
others for the same reasons, and neither loses nor adds an edge of the call graph. -/
theorem replaceLibrary_twice {o : Options} {p : Program} (hlog : o.log = .empty)
    (hp : p.IsRegular) : o.Repeats p := by
  have hq := Options.classes_replaceLibrary o p
  have hmethods := Options.libraryMethods_again hq
  have hok : ∀ m ∈ p.libraryMethods, (o.standIn (o.replaceLibrary p).program m).outcome.isOk =
      (o.standIn p m).outcome.isOk ∧ o.skip? (o.replaceLibrary p).program m = o.skip? p m := by
    intro m hm
    rcases h : (o.standIn p m).outcome with err | st
    · rw [Options.skip?, Options.skip?, Options.standIn_again_of_error hq hm h, h]
      exact ⟨rfl, rfl⟩
    · obtain ⟨st', h', _⟩ := Options.standIn_again_of_ok hlog hp hq hm h
      rw [Options.skip?, Options.skip?, h, h']
      exact ⟨rfl, rfl⟩
  refine ⟨hmethods, fun m hm => (hok m hm).1, ?_, ?_, ?_⟩
  · rw [Options.report_replaceLibrary, Options.report_replaceLibrary, hmethods]
    refine List.countP_congr fun m hm => ?_
    rw [Options.isSome_effectsOf?, Options.isSome_effectsOf?, (hok m hm).1]
  · rw [Options.report_replaceLibrary, Options.report_replaceLibrary, hmethods]
    exact List.filterMap_congr fun m hm => (hok m hm).2
  · refine CallGraph.mem_edges_replaceLibrary fun c hc j m hm st hst => ?_
    exact Options.standInFor?_again hlog hp hq hc hm hst

namespace Sample

/-- A constructor that handles exceptions of its superclass, and a method without a stand-in. -/
def handling : Program where
  classes :=
    [library "A" (some "E") [method "<init>" [] false (some
        ⟨[⟨"a", .reference "A"⟩, ⟨"c", .reference "C"⟩],
          [.bind 0 .this, .invoke ⟨.special, ⟨"E", "<init>", [], .void⟩, some 0, []⟩,
            .assign (.var 1) (.new "C"),
            .invoke ⟨.special, ⟨"C", "<init>", [], .void⟩, some 1, []⟩, .ret none],
          [⟨"E", 0, 4, 4⟩]⟩),
        method "link" [.reference "B"] true (some
          ⟨[⟨"b", .reference "B"⟩],
            [.bind 0 (.parameter 0),
              .invoke ⟨.dynamic, ⟨"B", "call", [], .void⟩, none, []⟩, .ret none], []⟩)],
      library "C" none [method "<init>" [] false none, method "<clinit>" [] true none],
      library "E" none [method "<init>" [] false none, method "<clinit>" [] true none]]
  distinct := by decide

end Sample

theorem replaceLibrary_twice_handling :
    Sample.handling.IsRegular ∧
      ((⟨.perUnit, .empty, .guard⟩ : Options).replaceLibrary
        Sample.handling).report.synthesized = 1 ∧
      (⟨.perUnit, .empty, .guard⟩ : Options).Repeats Sample.handling :=
  ⟨by decide, by decide, replaceLibrary_twice rfl (by decide)⟩

end Standin
