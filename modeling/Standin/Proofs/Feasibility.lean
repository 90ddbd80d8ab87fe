import Standin.Proofs.Batch
import Standin.Proofs.FlowReport
import Standin.Proofs.Scan
import Standin.Proofs.TypeText

/-!
# When a stand-in can be made

A stand-in is made exactly if the method has a body whose effects can be told and the program has
what the steps of the plan ask for (`Subject.Feasible`). Much of what steps look up cannot be
missing: the constructor that is chosen for an exception is found again, and what a log adds has
been looked up before. But a log may name a constructor of an interface; then no stand-in is made
even if one is made without the log (`standIn_ok_with_log_iff`).
-/

namespace Standin

open Draft

/-! ## What steps ask for -/

namespace ClassDecl

variable {c : ClassDecl} {m : MethodDecl}

theorem mem_constructors : m ∈ c.constructors ↔ m ∈ c.methods ∧ m.isConstructor :=
  List.mem_filter

theorem isSome_defaultConstructor?_iff :
    c.defaultConstructor?.isSome ↔ ∃ k ∈ c.methods, k.isConstructor ∧ k.params = [] := by
  simp only [defaultConstructor?, List.find?_isSome, mem_constructors, List.isEmpty_iff, and_assoc]

/-- The constructor that is chosen for an exception is a method of the class. -/
theorem mem_methods_of_chosen (h : c.defaultConstructor?.or c.constructors.head? = some m) :
    m ∈ c.methods := by
  rcases Option.or_eq_some_iff.1 h with h | ⟨_, h⟩
  · exact (mem_constructors.1 (List.mem_of_find?_eq_some h)).1
  · exact (mem_constructors.1 (List.mem_of_head? h)).1

theorem isSome_chosen_iff :
    (c.defaultConstructor?.or c.constructors.head?).isSome ↔
      ∃ k ∈ c.methods, k.isConstructor := by
  simp only [← mem_constructors]
  rcases hd : c.defaultConstructor? with _ | k
  · rw [Option.none_or, List.isSome_head?]
    exact ⟨List.exists_mem_of_ne_nil _, fun ⟨_, hk⟩ => List.ne_nil_of_mem hk⟩
  · exact iff_of_true rfl ⟨k, List.mem_of_find?_eq_some hd⟩

end ClassDecl

namespace Program

variable {p : Program} {c : ClassDecl} {m : MethodDecl} {name : String}

theorem isOk_superConstructor_iff :
    (p.superConstructor name).isOk ↔
      ∃ c ∈ p.classes, c.name = name ∧ ∃ k ∈ c.methods, k.isConstructor ∧ k.params = [] := by
  simp only [← exists_class?_iff, ← ClassDecl.isSome_defaultConstructor?_iff]
  unfold superConstructor declared
  rcases p.class? name with _ | c
  · exact iff_of_false Bool.false_ne_true (by simp)
  · simp only [Option.some.injEq, exists_eq_left', bind, Except.bind]
    rcases c.defaultConstructor? with _ | k <;> exact Iff.rfl

theorem isOk_creation_iff {k : MethodRef} :
    (p.creation k).isOk ↔ ∃ c d, p.Resolves k c d ∧ c.isInterface = false := by
  simp only [← lookup_eq_ok]
  unfold creation
  rcases p.lookup k with err | ⟨c, d⟩
  · exact iff_of_false Bool.false_ne_true (by simp)
  · cases hi : c.isInterface <;> simp [hi, Except.isOk, Except.toBool]

theorem exists_resolves_ref (hc : c ∈ p.classes) (hm : m ∈ c.methods) :
    ∃ d, p.Resolves (m.ref c.name) c d := by
  have hsome : (c.methods.find? fun d => d.answers (m.ref c.name)).isSome :=
    List.find?_isSome.2 ⟨m, hm, (MethodDecl.answers_iff rfl).2 rfl⟩
  obtain ⟨d, hd⟩ := Option.isSome_iff_exists.1 hsome
  exact ⟨d, hc, rfl, hd⟩

theorem isOk_creation_ref (hc : c ∈ p.classes) (hm : m ∈ c.methods) :
    (p.creation (m.ref c.name)).isOk ↔ c.isInterface = false := by
  rw [isOk_creation_iff]
  constructor
  · rintro ⟨c', d, hres, hi⟩
    rwa [eq_of_name hc hres.owner hres.name.symm]
  · intro hi
    obtain ⟨d, hres⟩ := exists_resolves_ref hc hm
    exact ⟨c, d, hres, hi⟩

theorem isOk_exceptionCreation_iff :
    (p.exceptionCreation name).isOk ↔
      ∃ c ∈ p.classes, c.name = name ∧ c.isInterface = false ∧
        ∃ k ∈ c.methods, k.isConstructor := by
  simp only [← exists_class?_iff, ← ClassDecl.isSome_chosen_iff]
  unfold exceptionCreation anyConstructor declared
  rcases hc : p.class? name with _ | c
  · exact iff_of_false Bool.false_ne_true (by simp)
  · simp only [Option.some.injEq, exists_eq_left', bind, Except.bind]
    rcases hk : c.defaultConstructor?.or c.constructors.head? with _ | k
    · exact iff_of_false Bool.false_ne_true (by simp)
    · have hk := ClassDecl.mem_methods_of_chosen hk
      rw [Option.isSome_some, and_iff_left rfl]
      exact isOk_creation_ref (class?_eq_some.1 hc).1 hk

theorem isOk_of_mem_initialization (hc : c ∈ p.classes) :
    ∀ x ∈ p.initialization c.name, x.isOk := by
  unfold initialization declared
  rw [class?_eq_some.2 ⟨hc, rfl⟩]
  intro x hx
  obtain ⟨m, _, rfl⟩ := List.mem_map.1 hx
  rfl

end Program

theorem ValueType.isOk_arrayCreation_iff {t : ValueType} :
    t.arrayCreation.isOk ↔ ∃ base n, t = .array base n ∧ n ≠ 0 := by
  cases t with
  | primitive | reference => exact iff_of_false Bool.false_ne_true (by simp)
  | array base n =>
    by_cases hn : n = 0 <;> simp [arrayCreation, hn, Except.isOk, Except.toBool]

theorem Call.isOk_supported_iff {c : Call} {f : Call → Step} :
    (c.supported.map f).isOk ↔ c.dispatch ≠ .dynamic := by
  unfold supported
  by_cases hc : c.dispatch = .dynamic <;> simp [hc, Except.map, Except.isOk, Except.toBool]

/-! ## What a log adds -/

namespace ReflectiveEffects

/-- All that is added can be carried out, the creation of objects left aside. -/
structure Supported (p : Program) (r : ReflectiveEffects) : Prop where
  arrays : ∀ t ∈ r.arrayCreations, ∃ base n, t = .array base n ∧ n ≠ 0
  classes : ∀ name ∈ r.initializedClasses, ∃ c ∈ p.classes, c.name = name
  calls : ∀ c ∈ r.calls, c.dispatch ≠ .dynamic

theorem supported_collect (p : Program) (log : ReflectionLog) (e : Effects) :
    (collect p log e).Supported p where
  arrays t ht := by
    obtain ⟨⟨_, _, _, hmeans⟩, _⟩ := has_collect_iff (f := .arrayCreation t) |>.1 ht
    cases hmeans with
    | array hparse => exact ⟨_, _, rfl, (ValueType.isCanonical_of_parse hparse).1⟩
  classes name hname := by
    obtain ⟨⟨_, _, _, hmeans⟩, _⟩ := has_collect_iff (f := .classInitialization name) |>.1 hname
    cases hmeans with
    | initialization hc => exact ⟨_, hc, rfl⟩
  calls c hc := by
    obtain ⟨⟨_, _, _, hmeans⟩, _⟩ := has_collect_iff (f := .call c) |>.1 hc
    cases hmeans <;> exact nofun

end ReflectiveEffects

/-! ## Plans without errors -/

namespace Subject

/-- What a stand-in needs of the program, where the body has the effects `e` and a log adds `r`. -/
structure Feasible (p : Program) (s : Subject) (e : Effects) (r : ReflectiveEffects) : Prop where
  superclass : ∀ name, s.method.isConstructor → s.method.isStatic = false →
    s.owner.superclass = some name →
    ∃ c ∈ p.classes, c.name = name ∧ ∃ k ∈ c.methods, k.isConstructor ∧ k.params = []
  objects : ∀ k ∈ e.objectCreations ++ r.objectCreations,
    ∃ c d, p.Resolves k c d ∧ c.isInterface = false
  arrays : ∀ t ∈ e.arrayCreations, ∃ base n, t = .array base n ∧ n ≠ 0
  exceptions : ∀ h ∈ s.body.handlers, ∃ c ∈ p.classes, c.name = h.exception ∧
    c.isInterface = false ∧ ∃ k ∈ c.methods, k.isConstructor
  calls : ∀ c ∈ e.calls, c.dispatch ≠ .dynamic

variable {p : Program} {s : Subject} {e : Effects} {r : ReflectiveEffects}

theorem isOk_superSteps_iff :
    (∀ x ∈ s.superSteps p, x.isOk) ↔
      ∀ name, s.calledSuperclass? = some name → (p.superConstructor name).isOk := by
  have hmap : ∀ x : Except SynthesisError MethodRef, (x.map Step.superCall).isOk = x.isOk := by
    rintro (_ | _) <;> rfl
  simp only [superSteps_eq, List.forall_mem_map, hmap, Option.mem_toList]

theorem isOk_creationSteps_iff :
    (∀ x ∈ creationSteps p e r, x.isOk) ↔
      (∀ k ∈ e.objectCreations ++ r.objectCreations, (p.creation k).isOk) ∧
      (∀ t ∈ e.arrayCreations ++ r.arrayCreations, t.arrayCreation.isOk) ∧
      (∀ c ∈ e.checkedExceptions, (p.exceptionCreation c).isOk) ∧
      ∀ c ∈ r.initializedClasses, ∀ x ∈ p.initialization c, x.isOk := by
  simp only [creationSteps, List.forall_mem_append, List.forall_mem_map, List.forall_mem_flatMap]
  tauto

theorem isOk_callSteps_iff :
    (∀ x ∈ callSteps e r, x.isOk) ↔ ∀ c ∈ e.calls ++ r.calls, c.dispatch ≠ .dynamic := by
  simp only [callSteps, Effects.calls, List.forall_mem_append, List.forall_mem_map,
    Call.isOk_supported_iff, and_assoc]

theorem isOk_plan_iff :
    (s.plan p e r).all Except.isOk ↔
      (∀ x ∈ s.superSteps p, x.isOk) ∧ (∀ x ∈ creationSteps p e r, x.isOk) ∧
        ∀ x ∈ callSteps e r, x.isOk := by
  have hkeep : ∀ x ∈ keepSteps 0 s.incoming, x.isOk := by
    rw [keepSteps_eq, List.forall_mem_map]
    exact fun _ _ => rfl
  have hexit : ∀ x ∈ s.exitSteps e, x.isOk := by
    simp only [exitSteps, List.forall_mem_append, List.forall_mem_map, List.forall_mem_singleton]
    exact ⟨fun _ _ => rfl, rfl⟩
  simp only [plan, List.all_eq_true, List.forall_mem_append]
  tauto

theorem isOk_plan_iff_feasible (he : s.effects = .ok e) (hr : r.Supported p) :
    (s.plan p e r).all Except.isOk ↔ s.Feasible p e r := by
  have hhandled : ∀ name, name ∈ e.checkedExceptions ↔
      ∃ h ∈ s.body.handlers, h.exception = name := by
    obtain ⟨e', _, rfl⟩ := effects_eq_ok he
    simp [mem_addAllNew]
  simp only [isOk_plan_iff, isOk_superSteps_iff, isOk_creationSteps_iff, isOk_callSteps_iff,
    calledSuperclass?_eq_some, Program.isOk_superConstructor_iff, Program.isOk_creation_iff,
    Program.isOk_exceptionCreation_iff, ValueType.isOk_arrayCreation_iff]
  constructor
  · rintro ⟨hsuper, ⟨hobjects, harrays, hexceptions, _⟩, hcalls⟩
    exact
      { superclass := fun name hctor hstatic hname => hsuper name ⟨hctor, hstatic, hname⟩
        objects := hobjects
        arrays := fun t ht => harrays t (List.mem_append_left _ ht)
        exceptions := fun h hh => hexceptions _ ((hhandled _).2 ⟨h, hh, rfl⟩)
        calls := fun c hc => hcalls c (List.mem_append_left _ hc) }
  · intro h
    refine ⟨fun name ⟨hctor, hstatic, hname⟩ => h.superclass name hctor hstatic hname,
      ⟨h.objects, fun t ht => ?_, fun name hname => ?_, fun name hname => ?_⟩, fun c hc => ?_⟩
    · exact (List.mem_append.1 ht).elim (h.arrays t) (hr.arrays t)
    · obtain ⟨handler, hh, rfl⟩ := (hhandled name).1 hname
      exact h.exceptions handler hh
    · obtain ⟨c, hc, rfl⟩ := hr.classes name hname
      exact Program.isOk_of_mem_initialization hc
    · exact (List.mem_append.1 hc).elim (h.calls c) (hr.calls c)

end Subject

/-! ## Stand-ins that are made -/

theorem exists_ok_iff {ε α : Type} {x : Except ε α} : (∃ a, x = .ok a) ↔ x.isOk := by
  cases x with
  | error e => exact iff_of_false nofun Bool.false_ne_true
  | ok a => exact iff_of_true ⟨a, rfl⟩ rfl

theorem MethodDecl.eq_of_signature {m m' : MethodDecl} (h : m'.signature = m.signature)
    (hb : m'.body = m.body) : m' = m := by
  cases m
  cases m'
  cases h
  cases hb
  rfl

namespace Options

variable {o : Options} {p q : Program} {m : MethodRef}

theorem exists_standIn_iff :
    (∃ st, (o.standIn p m).outcome = .ok st) ↔
      ∃ s e, subject p m = .ok s ∧ s.effects = .ok e ∧ s.Feasible p e (.collect p o.log e) := by
  have hplan := fun {s e} (he : Subject.effects s = .ok e) =>
    Subject.isOk_plan_iff_feasible he (ReflectiveEffects.supported_collect p o.log e)
  constructor
  · rintro ⟨st, h⟩
    obtain ⟨s, _, _, _, _, hs, he, hd, _⟩ := standIn_eq_ok h
    exact ⟨s, st.effects, hs, he, (hplan he).1 hd.isOk_plan⟩
  · rintro ⟨s, e, hs, he, h⟩
    rw [exists_ok_iff, standIn_of_subject hs he, isOk_write]
    exact (hplan he).2 h

/-- A program with the same signatures and the same body of the method has the same to look at. -/
theorem subject_of_skeleton (hp : q.skeleton = p.skeleton)
    (hb : (q.method? m).bind MethodDecl.body = (p.method? m).bind MethodDecl.body) :
    (subject q m).map Subject.skeleton = (subject p m).map Subject.skeleton := by
  have hlookup := q.lookup_skeleton m
  rw [hp, p.lookup_skeleton m] at hlookup
  unfold Program.method? at hb
  unfold subject
  rcases hq : q.lookup m with err | ⟨c, d⟩ <;> rcases hp' : p.lookup m with err' | ⟨c', d'⟩ <;>
    rw [hq, hp'] at hlookup hb
  · cases hlookup
    rfl
  · cases hlookup
  · cases hlookup
  · obtain ⟨hc, hd⟩ := Prod.mk.inj (Except.ok.inj hlookup)
    obtain rfl : d' = d := MethodDecl.eq_of_signature hd hb.symm
    rcases hb : d'.body with _ | b
    · simp only [hb]
    · simp only [hb, Except.map, Subject.skeleton, hc]

end Options

/-- The stand-in for a method, where `stored` has been stored into the shared field before. -/
def Options.standInAfter (o : Options) (stored : List ValueType) (p : Program) (m : MethodRef) :
    Synthesis :=
  let t := o.task p m
  let (outcome, d) := Step.emitAll o.abstraction o.guard (t.draft.withFlows stored) t.rest
  ⟨outcome.map fun _ => ⟨d.body.tidy, t.effects⟩, d.flows⟩

theorem Options.standInAfter_eq (o : Options) (stored : List ValueType) (p : Program)
    (m : MethodRef) :
    o.standInAfter stored p m =
      ⟨(o.standIn p m).outcome, stored ++ (o.standIn p m).flows⟩ := by
  rw [← Task.finish_task]
  simp only [standInAfter, Task.finish, Step.emitAll_withFlows _ _ stored]
  rfl

/-- A stand-in is made exactly if the method has a body, the effects of the body can be told and the
program has what is needed. Neither the bodies of other methods nor what has been stored into the
shared field before make a difference to it. -/
theorem standIn_ok_iff (o : Options) (p : Program) (m : MethodRef) :
    ((∃ st, (o.standIn p m).outcome = .ok st) ↔
      ∃ (s : Subject) (e : Effects), p.Resolves m s.owner s.method ∧
        s.method.body = some s.body ∧ s.effects = .ok e ∧ s.Feasible p e (.collect p o.log e)) ∧
    (∀ q : Program, q.skeleton = p.skeleton →
      (q.method? m).bind MethodDecl.body = (p.method? m).bind MethodDecl.body →
      o.standIn q m = o.standIn p m) ∧
    ∀ stored, o.standInAfter stored p m =
      ⟨(o.standIn p m).outcome, stored ++ (o.standIn p m).flows⟩ := by
  refine ⟨?_, fun q hq hb => ?_, fun stored => o.standInAfter_eq stored p m⟩
  · simp only [Options.exists_standIn_iff, Options.subject_eq_ok_iff, and_assoc]
  · exact Options.standIn_of_skeleton hq (Options.subject_of_skeleton hq hb)

namespace Sample

/-- `linking` with another body for the method that has no stand-in. -/
def relinked : Program :=
  linking.setBody ⟨"A", "link", [.reference "B"], .void⟩ ⟨[], [.ret none], []⟩

/-- The method of `linking` that has a stand-in. -/
def make : MethodRef := ⟨"A", "make", [], .void⟩

end Sample

open Sample in
theorem standIn_ok_iff_linking :
    (∃ st, ((options .perUnit).standIn linking make).outcome = .ok st) ∧
      (∃ (s : Subject) (e : Effects), linking.Resolves make s.owner s.method ∧
        s.method.body = some s.body ∧ s.effects = .ok e ∧
        s.Feasible linking e (.collect linking (options .perUnit).log e)) ∧
      relinked.skeleton = linking.skeleton ∧
      (relinked.method? make).bind MethodDecl.body = (linking.method? make).bind MethodDecl.body ∧
      (options .perUnit).standIn relinked make = (options .perUnit).standIn linking make := by
  have hmade : ∃ st, ((options .perUnit).standIn linking make).outcome = .ok st := ⟨_, rfl⟩
  have hskeleton : relinked.skeleton = linking.skeleton := Program.eq_of_classes rfl
  have hbody : (relinked.method? make).bind MethodDecl.body =
      (linking.method? make).bind MethodDecl.body := rfl
  exact ⟨hmade, (standIn_ok_iff (options .perUnit) linking make).1.1 hmade, hskeleton, hbody,
    (standIn_ok_iff (options .perUnit) linking make).2.1 relinked hskeleton hbody⟩

/-! ## Logs that name constructors of interfaces -/

/-- The target is the signature of a constructor that an interface declares. -/
def Program.NamesInterface (p : Program) (target : String) : Prop :=
  ∃ r c d, MethodRef.parse? target = some r ∧ r.isConstructor ∧ p.Resolves r c d ∧ c.isInterface

/-- Of all that targets mean, only a constructor of an interface cannot be run on a new object. -/
theorem ReflectionKind.Means.creation {p : Program} {k : ReflectionKind} {target : String}
    {r : MethodRef} (h : k.Means p target (.objectCreation r)) :
    (p.creation r).isOk ∨
      k = .constructorNewInstance ∧ p.NamesInterface target ∧ ∃ c ∈ p.classes, c.isInterface ∧
        p.creation r = .error (.unresolvableType (.reference c.name) .interface) := by
  cases h with
  | object hc _ hi hm =>
    have hmem := ClassDecl.mem_constructors.1 (List.mem_of_find?_eq_some hm)
    exact .inl ((Program.isOk_creation_ref hc hmem.1).2 hi)
  | @constructed _ _ c d hr hctor hres =>
    rcases hi : c.isInterface with _ | _
    · exact .inl (Program.isOk_creation_iff.2 ⟨c, d, hres, hi⟩)
    · refine .inr ⟨rfl, ⟨r, c, d, hr, hctor, hres, hi⟩, c, hres.owner, hi, ?_⟩
      unfold Program.creation
      simp only [Program.lookup_eq_ok.2 hres, hi, if_true]

theorem Step.error_mem_of_emitAll {a : Abstraction} {g : FieldRef} {err : SynthesisError}
    {ss : List (Except SynthesisError Step)} {d : Draft}
    (h : (emitAll a g d ss).1 = .error err) : .error err ∈ ss := by
  induction ss generalizing d with
  | nil => cases h
  | cons step ss ih =>
    cases step with
    | error e =>
      cases h
      exact List.mem_cons_self
    | ok s => exact List.mem_cons_of_mem _ (ih h)

theorem Options.error_mem_of_write {o : Options} {p : Program} {s : Subject} {e : Effects}
    {err : SynthesisError} (h : (o.write p s e).outcome = .error err) :
    .error err ∈ s.plan p e (.collect p o.log e) := by
  refine Step.error_mem_of_emitAll (a := o.abstraction) (g := o.guard) (d := .start s) ?_
  rcases hrun : (Step.emitAll o.abstraction o.guard (.start s)
      (s.plan p e (.collect p o.log e))).1 with err' | _
  · simp only [write, hrun] at h
    rw [Except.error.inj h]
  · simp only [write, hrun] at h
    cases h

namespace Subject

variable {p : Program} {s : Subject} {e : Effects} {r : ReflectiveEffects} {log : ReflectionLog}

theorem mem_plan_of_creations {x : Except SynthesisError Step} (h : x ∈ s.plan p e r) :
    x ∈ s.plan p e { r with objectCreations := [] } ∨ x ∈ r.objectCreations.map p.creation := by
  simp only [plan, creationSteps, callSteps, List.mem_append, List.map_nil, List.not_mem_nil,
    or_false] at h ⊢
  tauto

theorem feasible_collect_iff (h : s.Feasible p e .empty) :
    s.Feasible p e (.collect p log e) ↔
      ((∃ call ∈ e.calls, call.callee.reflectionKind? = some .constructorNewInstance) →
        ∀ target ∈ log.targets .constructorNewInstance, ¬p.NamesInterface target) := by
  constructor
  · rintro hlog ⟨call, hcall, hk⟩ target ht ⟨r, c, d, hr, hctor, hres, hi⟩
    have harises : ReflectiveEffect.Arises p log e (.objectCreation r) :=
      ⟨hcall, hk, ht, .constructed hr hctor hres⟩
    have hmem : r ∈ e.objectCreations ++ (ReflectiveEffects.collect p log e).objectCreations := by
      rw [List.mem_append]
      by_cases hitself : r ∈ e.objectCreations
      · exact .inl hitself
      · exact .inr (ReflectiveEffects.has_collect_iff.2 ⟨harises, hitself⟩)
    obtain ⟨c', d', hres', hi'⟩ := hlog.objects r hmem
    rw [Program.eq_of_name hres'.owner hres.owner (hres'.name.trans hres.name.symm), hi] at hi'
    cases hi'
  · intro hnone
    refine ⟨h.superclass, fun k hk => ?_, h.arrays, h.exceptions, h.calls⟩
    rcases List.mem_append.1 hk with hk | hk
    · exact h.objects k (List.mem_append_left _ hk)
    · obtain ⟨⟨hcall, hkind, ht, hmeans⟩, _⟩ :=
        ReflectiveEffects.has_collect_iff (f := .objectCreation k) |>.1 hk
      rcases hmeans.creation with hok | ⟨rfl, hnames, _⟩
      · exact Program.isOk_creation_iff.1 hok
      · exact absurd hnames (hnone ⟨_, hcall, hkind⟩ _ ht)

/-- The only error that a log brings into a plan. -/
theorem eq_of_error_mem_plan (he : s.effects = .ok e) (h : s.Feasible p e .empty)
    {err : SynthesisError} (herr : .error err ∈ s.plan p e (.collect p log e)) :
    ∃ c ∈ p.classes, c.isInterface ∧ err = .unresolvableType (.reference c.name) .interface := by
  have hr := ReflectiveEffects.supported_collect p log e
  rcases mem_plan_of_creations herr with hmem | hmem
  · -- without the objects that the log adds, nothing is missing
    have hall := (isOk_plan_iff_feasible
      (r := { ReflectiveEffects.collect p log e with objectCreations := [] }) he
      ⟨hr.arrays, hr.classes, hr.calls⟩).2
      ⟨h.superclass, h.objects, h.arrays, h.exceptions, h.calls⟩
    cases List.all_eq_true.1 hall _ hmem
  · obtain ⟨k, hk, hcreation⟩ := List.mem_map.1 hmem
    obtain ⟨⟨_, _, _, hmeans⟩, _⟩ :=
      ReflectiveEffects.has_collect_iff (f := .objectCreation k) |>.1 hk
    rcases hmeans.creation with hok | ⟨_, _, c, hc, hi, hfault⟩
    · rw [hcreation] at hok
      cases hok
    · exact ⟨c, hc, hi, Except.error.inj (hcreation.symm.trans hfault)⟩

end Subject

/-- Where a stand-in is made without a log, it is made with a log unless the method creates objects
through reflection and the log names a constructor of an interface for it; and nothing else is
reported then. -/
theorem standIn_ok_with_log_iff {o : Options} {p : Program} {m : MethodRef} {st : StandIn}
    (h : ({ o with log := .empty }.standIn p m).outcome = .ok st) :
    ((∃ st', (o.standIn p m).outcome = .ok st') ↔
      ((∃ call ∈ st.effects.calls,
          call.callee.reflectionKind? = some .constructorNewInstance) →
        ∀ target ∈ o.log.targets .constructorNewInstance, ¬p.NamesInterface target)) ∧
    ∀ err, (o.standIn p m).outcome = .error err →
      ∃ c ∈ p.classes, c.isInterface ∧ err = .unresolvableType (.reference c.name) .interface := by
  obtain ⟨s, _, _, _, _, hs, he, hd, _⟩ := standIn_eq_ok h
  have hfeasible : s.Feasible p st.effects .empty := by
    have hplan := hd.isOk_plan
    have hr := ReflectiveEffects.supported_collect p .empty st.effects
    rw [ReflectiveEffects.collect_empty] at hplan hr
    exact (Subject.isOk_plan_iff_feasible he hr).1 hplan
  have hr := ReflectiveEffects.supported_collect p o.log st.effects
  rw [Options.standIn_of_subject hs he]
  refine ⟨?_, fun err herr => ?_⟩
  · rw [exists_ok_iff, Options.isOk_write, Subject.isOk_plan_iff_feasible he hr,
      Subject.feasible_collect_iff hfeasible]
  · exact Subject.eq_of_error_mem_plan he hfeasible (Options.error_mem_of_write herr)

namespace Sample

/-- The reflective call of a constructor. -/
def constructorNewInstance : MethodRef :=
  ⟨"java.lang.reflect.Constructor", "newInstance", [], .value .object⟩

/-- Runs the constructor that it gets. The program has an interface that declares one. -/
def assembling : Program where
  classes :=
    [library "Assembler" none
        [method "assemble" [.reference "java.lang.reflect.Constructor"] true (some
          ⟨[⟨"k", .reference "java.lang.reflect.Constructor"⟩],
            [.bind 0 (.parameter 0),
              .invoke ⟨.virtual, constructorNewInstance, some 0, []⟩, .ret none], []⟩)],
      { library "Part" none [method "<init>" [] false none] with isInterface := true },
      library "Whole" none [method "<init>" [] false none]]
  distinct := by decide

/-- The method of `assembling`. -/
def assemble : MethodRef :=
  ⟨"Assembler", "assemble", [.reference "java.lang.reflect.Constructor"], .void⟩

/-- A log that names the constructor of a class. -/
def wholeLog : ReflectionLog := ⟨[(.constructorNewInstance, "<Whole: void <init>()>")]⟩

/-- A log that names the constructor of the interface. -/
def partLog : ReflectionLog := ⟨[(.constructorNewInstance, "<Part: void <init>()>")]⟩

end Sample

open Sample in
theorem standIn_ok_with_log_iff_assembling :
    ∃ st, ((⟨.perUnit, .empty, .guard⟩ : Options).standIn assembling assemble).outcome = .ok st ∧
      (∃ st', ((⟨.perUnit, wholeLog, .guard⟩ : Options).standIn assembling assemble).outcome =
        .ok st') ∧
      ((∃ call ∈ st.effects.calls,
          call.callee.reflectionKind? = some .constructorNewInstance) →
        ∀ target ∈ wholeLog.targets .constructorNewInstance,
          ¬assembling.NamesInterface target) := by
  have hmade : ∃ st', ((⟨.perUnit, wholeLog, .guard⟩ : Options).standIn assembling
      assemble).outcome = .ok st' := ⟨_, rfl⟩
  exact ⟨_, rfl, hmade,
    (standIn_ok_with_log_iff (o := ⟨.perUnit, wholeLog, .guard⟩) rfl).1.1 hmade⟩

open Sample in
/-- A log that names the constructor of an interface leaves the method without a stand-in. -/
theorem standIn_error_of_partLog :
    (∃ st, ((⟨.perUnit, .empty, .guard⟩ : Options).standIn assembling assemble).outcome =
        .ok st) ∧
      ((⟨.perUnit, partLog, .guard⟩ : Options).standIn assembling assemble).outcome =
        .error (.unresolvableType (.reference "Part") .interface) :=
  ⟨⟨_, rfl⟩, rfl⟩

end Standin
