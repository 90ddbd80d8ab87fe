import Mathlib.Data.List.Nodup
import Standin.StandIn

/-!
# What a log adds to a body

A log records the targets of reflective calls as texts. What a target means in a program is said by
one rule for each operation and each outcome (`ReflectionKind.Means`); a target that fits no rule
means nothing. The log adds to a body what the targets mean of those operations that the body calls,
each effect once and without those that the body has itself (`ReflectiveEffects.has_collect_iff`).
So of a log only the targets of these operations count (`collect_exact`).
-/

namespace Standin

/-! ## What references mean -/

namespace Program

/-- The reference means the method `m` of the class `c`, the first one that has its signature. -/
structure Resolves (p : Program) (r : MethodRef) (c : ClassDecl) (m : MethodDecl) : Prop where
  owner : c ∈ p.classes
  name : c.name = r.className
  method : c.methods.find? (fun m => m.answers r) = some m

variable {p : Program} {c : ClassDecl} {m : MethodDecl}

theorem class?_eq_some {name : String} :
    p.class? name = some c ↔ c ∈ p.classes ∧ c.name = name := by
  constructor
  · intro h
    exact ⟨List.mem_of_find?_eq_some h, by simpa using List.find?_some h⟩
  · rintro ⟨hc, rfl⟩
    rcases h : p.class? c.name with _ | c'
    · have hnone := List.find?_eq_none.1 h c hc
      simp at hnone
    · have hname : c'.name = c.name := by simpa using List.find?_some h
      rw [List.inj_on_of_nodup_map p.distinct (List.mem_of_find?_eq_some h) hc hname]

theorem lookup_eq_ok {r : MethodRef} : p.lookup r = .ok (c, m) ↔ p.Resolves r c m := by
  unfold lookup
  constructor
  · intro h
    rcases hc : p.class? r.className with _ | c'
    · simp [hc] at h
    rcases hm : c'.method? r with _ | m'
    · simp [hc, hm] at h
    simp only [hc, hm, Except.ok.injEq, Prod.mk.injEq] at h
    obtain ⟨rfl, rfl⟩ := h
    exact ⟨(class?_eq_some.1 hc).1, (class?_eq_some.1 hc).2, hm⟩
  · intro h
    have hm : c.method? r = some m := h.method
    simp only [class?_eq_some.2 ⟨h.owner, h.name⟩, hm]

theorem isSome_method?_iff {r : MethodRef} :
    (p.method? r).isSome ↔ ∃ c m, p.Resolves r c m := by
  unfold method?
  rcases h : p.lookup r with err | ⟨c, m⟩
  · simp only [Except.toOption, Option.map_none, Option.isSome_none, Bool.false_eq_true, false_iff]
    rintro ⟨c, m, hr⟩
    cases h.symm.trans (lookup_eq_ok.2 hr)
  · exact iff_of_true rfl ⟨c, m, lookup_eq_ok.1 h⟩

/-- A class is declared, and something holds of it. -/
theorem exists_class?_iff {name : String} {P : ClassDecl → Prop} :
    (∃ c, p.class? name = some c ∧ P c) ↔ ∃ c ∈ p.classes, c.name = name ∧ P c := by
  simp only [class?_eq_some, and_assoc]

theorem hasStaticInitializer_iff {name : String} :
    p.hasStaticInitializer name ↔
      ∃ c ∈ p.classes, c.name = name ∧ ∃ m ∈ c.methods, m.isStaticInitializer := by
  rw [← exists_class?_iff]
  unfold hasStaticInitializer
  rcases p.class? name with _ | c
  · simp
  · simp [ClassDecl.declares, MethodDecl.isStaticInitializer]

end Program

theorem Options.subject_eq_ok_iff {p : Program} {m : MethodRef} {s : Subject} :
    subject p m = .ok s ↔ p.Resolves m s.owner s.method ∧ s.method.body = some s.body := by
  rw [← Program.lookup_eq_ok]
  unfold subject
  rcases p.lookup m with err | ⟨c, d⟩
  · simp
  · rcases hb : d.body with _ | b
    · simp only [hb, reduceCtorEq, Except.ok.injEq, Prod.mk.injEq, false_iff, not_and]
      rintro ⟨_, rfl⟩
      simp [hb]
    · simp only [hb, Except.ok.injEq, Prod.mk.injEq]
      constructor
      · rintro rfl
        exact ⟨⟨rfl, rfl⟩, hb⟩
      · rintro ⟨⟨rfl, rfl⟩, hs⟩
        obtain rfl : b = s.body := Option.some.inj (hb.symm.trans hs)
        rfl

/-! ## What targets mean -/

namespace ReflectionKind

/-- What a target means to a reflective operation: the array type that it names; the class that it
names, if the class has something to initialize; the constructor without parameters of the class
that it names, if the class is no interface; the constructor of that signature; the call of the
method of that signature. -/
inductive Means (p : Program) : ReflectionKind → String → ReflectiveEffect → Prop
  | array {target : String} {base : ValueType} {n : UInt8} :
    ValueType.parse target = .ok (.array base n) →
    Means p .arrayNewInstance target (.arrayCreation (.array base n))
  | initialization {target : String} {c : ClassDecl} {m : MethodDecl} :
    c ∈ p.classes → c.name = Text.trimmed target → m ∈ c.methods → m.isStaticInitializer →
    Means p .classForName target (.classInitialization c.name)
  | object {target : String} {c : ClassDecl} {m : MethodDecl} :
    c ∈ p.classes → c.name = Text.trimmed target → c.isInterface = false →
    c.defaultConstructor? = some m →
    Means p .classNewInstance target (.objectCreation (m.ref c.name))
  | constructed {target : String} {r : MethodRef} {c : ClassDecl} {m : MethodDecl} :
    MethodRef.parse? target = some r → r.isConstructor → p.Resolves r c m →
    Means p .constructorNewInstance target (.objectCreation r)
  | staticCall {target : String} {r : MethodRef} {c : ClassDecl} {m : MethodDecl} :
    MethodRef.parse? target = some r → p.Resolves r c m → m.isStatic →
    Means p .methodInvoke target (.call ⟨.static, r, none⟩)
  | interfaceCall {target : String} {r : MethodRef} {c : ClassDecl} {m : MethodDecl} :
    MethodRef.parse? target = some r → p.Resolves r c m → m.isStatic = false → c.isInterface →
    Means p .methodInvoke target (.call ⟨.interface, r, some (.reference c.name)⟩)
  | virtualCall {target : String} {r : MethodRef} {c : ClassDecl} {m : MethodDecl} :
    MethodRef.parse? target = some r → p.Resolves r c m → m.isStatic = false →
    c.isInterface = false →
    Means p .methodInvoke target (.call ⟨.virtual, r, some (.reference c.name)⟩)

variable {p : Program} {k : ReflectionKind} {target : String} {f : ReflectiveEffect}

theorem means_of_effect? (h : k.effect? p target = some f) : k.Means p target f := by
  cases k with
  | arrayNewInstance =>
    simp only [effect?] at h
    split at h
    · next ht =>
      cases h
      exact .array ht
    · cases h
  | classForName =>
    simp only [effect?] at h
    split at h
    · next hi =>
      cases h
      obtain ⟨c, hc, hn, m, hm, hi⟩ := Program.hasStaticInitializer_iff.1 hi
      rw [← hn]
      exact .initialization hc hn hm hi
    · cases h
  | classNewInstance =>
    obtain ⟨c, hc, h⟩ := Option.bind_eq_some_iff.1 h
    obtain ⟨hc, hn⟩ := Program.class?_eq_some.1 hc
    split at h
    · cases h
    · next hi =>
      obtain ⟨m, hm, h⟩ := Option.bind_eq_some_iff.1 h
      cases h
      exact .object hc hn (by simpa using hi) hm
  | constructorNewInstance =>
    obtain ⟨r, hr, h⟩ := Option.bind_eq_some_iff.1 h
    split at h
    · next hand =>
      cases h
      obtain ⟨hctor, hm⟩ := Bool.and_eq_true_iff.1 hand
      obtain ⟨c, m, hres⟩ := Program.isSome_method?_iff.1 hm
      exact .constructed hr hctor hres
    · cases h
  | methodInvoke =>
    obtain ⟨r, hr, h⟩ := Option.bind_eq_some_iff.1 h
    obtain ⟨⟨c, m⟩, hl, h⟩ := Option.bind_eq_some_iff.1 h
    cases h
    have hres : p.Resolves r c m := by
      rcases hlook : p.lookup r with err | found
      · rw [hlook] at hl
        cases hl
      · rw [hlook] at hl
        cases hl
        exact Program.lookup_eq_ok.1 hlook
    unfold Call.ofDeclaration
    rcases hs : m.isStatic with _ | _
    · rcases hi : c.isInterface with _ | _
      · exact .virtualCall hr hres hs hi
      · exact .interfaceCall hr hres hs hi
    · exact .staticCall hr hres hs

theorem effect?_of_means (h : k.Means p target f) : k.effect? p target = some f := by
  cases h with
  | array ht => simp only [effect?, ht]
  | initialization hc hn hm hi =>
    have hinit := Program.hasStaticInitializer_iff.2 ⟨_, hc, hn, _, hm, hi⟩
    simp only [effect?, hinit, if_true, hn]
  | object hc hn hi hm =>
    simp [effect?, Program.class?_eq_some.2 ⟨hc, hn⟩, hi, hm]
  | constructed hr hctor hres =>
    simp [effect?, hr, hctor, Program.isSome_method?_iff.2 ⟨_, _, hres⟩]
  | staticCall hr hres hs =>
    simp [effect?, hr, Program.lookup_eq_ok.2 hres, Except.toOption, Call.ofDeclaration, hs]
  | interfaceCall hr hres hs hi | virtualCall hr hres hs hi =>
    simp [effect?, hr, Program.lookup_eq_ok.2 hres, Except.toOption, Call.ofDeclaration, hs, hi]

theorem effect?_eq_some_iff : k.effect? p target = some f ↔ k.Means p target f :=
  ⟨means_of_effect?, effect?_of_means⟩

end ReflectionKind

/-! ## What is collected -/

/-- The log records a target, for an operation that a body with the effects `e` calls, and the
target means `f`. -/
inductive ReflectiveEffect.Arises (p : Program) (log : ReflectionLog) (e : Effects)
    (f : ReflectiveEffect) : Prop
  | intro {call : Call} {k : ReflectionKind} {target : String} : call ∈ e.calls →
    call.callee.reflectionKind? = some k → target ∈ log.targets k → k.Means p target f →
    Arises p log e f

/-- The body has the effect without the log. That classes are initialized is not known of bodies. -/
def Effects.HasItself (e : Effects) : ReflectiveEffect → Prop
  | .arrayCreation t => t ∈ e.arrayCreations
  | .classInitialization _ => False
  | .objectCreation m => m ∈ e.objectCreations
  | .call c => c ∈ e.calls

theorem Effects.mem_reflectionKinds {e : Effects} {k : ReflectionKind} :
    k ∈ e.reflectionKinds ↔ ∃ call ∈ e.calls, call.callee.reflectionKind? = some k := by
  unfold reflectionKinds
  rw [mem_addAllNew, List.mem_filterMap]
  simp

namespace ReflectiveEffects

/-- The effect is one of those recorded. -/
def Has (r : ReflectiveEffects) : ReflectiveEffect → Prop
  | .arrayCreation t => t ∈ r.arrayCreations
  | .classInitialization c => c ∈ r.initializedClasses
  | .objectCreation m => m ∈ r.objectCreations
  | .call c => c ∈ r.calls

/-- No effect is recorded twice. -/
structure Distinct (r : ReflectiveEffects) : Prop where
  arrayCreations : r.arrayCreations.Nodup
  objectCreations : r.objectCreations.Nodup
  initializedClasses : r.initializedClasses.Nodup
  calls : r.calls.Nodup

variable {e : Effects} {r : ReflectiveEffects} {f g : ReflectiveEffect}

/-- An effect is recorded unless the body has it itself. -/
theorem has_record_iff : (r.record e g).Has f ↔ r.Has f ∨ f = g ∧ ¬e.HasItself f := by
  cases g with
  | classInitialization c => cases f <;> simp [record, Has, Effects.HasItself]
  | arrayCreation | objectCreation | call =>
    unfold record
    simp only
    split
    · next hg =>
      refine ⟨.inl, ?_⟩
      rintro (h | ⟨rfl, hnot⟩)
      · exact h
      · exact absurd hg hnot
    · next hg =>
      rw [and_iff_left_of_imp (by rintro rfl; exact hg)]
      cases f <;> simp [Has]

theorem has_foldl_record_iff (fs : List ReflectiveEffect) :
    (fs.foldl (record e) r).Has f ↔ r.Has f ∨ f ∈ fs ∧ ¬e.HasItself f := by
  induction fs generalizing r with
  | nil => simp
  | cons g fs ih =>
    rw [List.foldl_cons, ih, has_record_iff, or_assoc, ← or_and_right, List.mem_cons]

theorem not_has_empty (f : ReflectiveEffect) : ¬empty.Has f := by
  cases f <;> exact List.not_mem_nil

theorem Distinct.record (h : r.Distinct) (e : Effects) (f : ReflectiveEffect) :
    (r.record e f).Distinct := by
  obtain ⟨ha, ho, hi, hc⟩ := h
  cases f with
  | classInitialization c => exact ⟨ha, ho, nodup_addNew c hi, hc⟩
  | arrayCreation t =>
    unfold ReflectiveEffects.record
    simp only
    split
    · exact ⟨ha, ho, hi, hc⟩
    · exact ⟨nodup_addNew t ha, ho, hi, hc⟩
  | objectCreation m =>
    unfold ReflectiveEffects.record
    simp only
    split
    · exact ⟨ha, ho, hi, hc⟩
    · exact ⟨ha, nodup_addNew m ho, hi, hc⟩
  | call c =>
    unfold ReflectiveEffects.record
    simp only
    split
    · exact ⟨ha, ho, hi, hc⟩
    · exact ⟨ha, ho, hi, nodup_addNew c hc⟩

variable {p : Program} {log : ReflectionLog}

theorem distinct_collect (p : Program) (log : ReflectionLog) (e : Effects) :
    (collect p log e).Distinct :=
  List.foldlRecOn (motive := Distinct) _ _ ⟨.nil, .nil, .nil, .nil⟩ fun _ h f _ => h.record e f

/-- What the log adds is what its targets mean, without what the body has itself. -/
theorem has_collect_iff : (collect p log e).Has f ↔ f.Arises p log e ∧ ¬e.HasItself f := by
  have hfound : f ∈ e.reflectionKinds.flatMap (fun k => (log.targets k).filterMap (k.effect? p)) ↔
      f.Arises p log e := by
    simp only [List.mem_flatMap, List.mem_filterMap, Effects.mem_reflectionKinds,
      ReflectionKind.effect?_eq_some_iff]
    constructor
    · rintro ⟨k, ⟨call, hcall, hk⟩, target, ht, hf⟩
      exact ⟨hcall, hk, ht, hf⟩
    · rintro ⟨hcall, hk, ht, hf⟩
      exact ⟨_, ⟨_, hcall, hk⟩, _, ht, hf⟩
  unfold collect
  rw [has_foldl_record_iff, hfound, or_iff_right (not_has_empty f)]

theorem collect_congr {log' : ReflectionLog}
    (h : ∀ k ∈ e.reflectionKinds, log'.targets k = log.targets k) :
    collect p log' e = collect p log e := by
  have hfound : e.reflectionKinds.flatMap (fun k => (log'.targets k).filterMap (k.effect? p)) =
      e.reflectionKinds.flatMap fun k => (log.targets k).filterMap (k.effect? p) :=
    List.flatMap_congr fun k hk => by rw [h k hk]
  unfold collect
  rw [hfound]

theorem collect_empty (p : Program) (e : Effects) :
    collect p .empty e = .empty := by
  have hnone : ∀ ks : List ReflectionKind, ks.flatMap (fun k =>
      (ReflectionLog.empty.targets k).filterMap (k.effect? p)) = [] :=
    fun ks => List.flatMap_eq_nil_iff.2 fun _ _ => rfl
  unfold collect
  rw [hnone]
  rfl

end ReflectiveEffects

/-- Stand-ins look at a log through what it adds. -/
theorem Options.standIn_congr {o o' : Options} {p : Program} {m : MethodRef}
    (ha : o'.abstraction = o.abstraction) (hg : o'.guard = o.guard)
    (h : ∀ s e, subject p m = .ok s → s.effects = .ok e →
      ReflectiveEffects.collect p o'.log e = .collect p o.log e) :
    o'.standIn p m = o.standIn p m := by
  unfold standIn
  rcases hs : subject p m with err | s
  · rfl
  rcases he : s.effects with err | e
  · simp only [he]
  · simp only [he, write, ha, hg, h s e hs he]

/-- A log adds exactly what the targets of called operations mean, each effect once and without
those that the body has itself. So what such a target means is an effect of the body or is added,
and logs that agree in the targets of the called operations lead to the same stand-in. -/
theorem collect_exact (p : Program) :
    (∀ log e, (ReflectiveEffects.collect p log e).Distinct ∧
      ∀ f, (ReflectiveEffects.collect p log e).Has f ↔ f.Arises p log e ∧ ¬e.HasItself f) ∧
    (∀ log e f, ReflectiveEffect.Arises p log e f →
      e.HasItself f ∨ (ReflectiveEffects.collect p log e).Has f) ∧
    ∀ (o : Options) (log : ReflectionLog) (m : MethodRef),
      (∀ s e, Options.subject p m = .ok s → s.effects = .ok e → ∀ call ∈ e.calls, ∀ k,
        call.callee.reflectionKind? = some k → log.targets k = o.log.targets k) →
      { o with log }.standIn p m = o.standIn p m := by
  refine ⟨fun log e => ?_, fun log e f hf => ?_, fun o log m h => ?_⟩
  · exact ⟨ReflectiveEffects.distinct_collect p log e,
      fun _ => ReflectiveEffects.has_collect_iff⟩
  · by_cases hitself : e.HasItself f
    · exact .inl hitself
    · exact .inr (ReflectiveEffects.has_collect_iff.2 ⟨hf, hitself⟩)
  · refine Options.standIn_congr rfl rfl fun s e hs he => ?_
    refine ReflectiveEffects.collect_congr fun k hk => ?_
    obtain ⟨call, hcall, hk⟩ := Effects.mem_reflectionKinds.1 hk
    exact h s e hs he call hcall k hk

namespace Sample

/-- The reflective creation of an object. -/
def newInstance : MethodRef :=
  ⟨"java.lang.Class", "newInstance", [], .value .object⟩

/-- Makes an object of the class that it gets. -/
def loadBody : Body :=
  ⟨[⟨"k", .reference "java.lang.Class"⟩, ⟨"x", .object⟩],
    [.bind 0 (.parameter 0), .assign (.var 1) (.invoke ⟨.virtual, newInstance, some 0, []⟩),
      .ret none],
    []⟩

/-- The method with `loadBody`. -/
def load : MethodDecl :=
  ⟨"load", [.reference "java.lang.Class"], .void, true, false, false, some loadBody⟩

/-- The class that declares `load`. -/
def loader : ClassDecl :=
  ⟨"Loader", none, [], false, false, [], [load]⟩

/-- A class with a constructor and a static initializer. -/
def plugin : ClassDecl :=
  ⟨"Plugin", none, [], false, false, [],
    [⟨"<init>", [], .void, false, false, false, none⟩,
      ⟨"<clinit>", [], .void, true, false, false, none⟩]⟩

/-- A method that creates objects by reflection, and a class for it. -/
def loading : Program where
  classes := [loader, plugin]
  distinct := by decide

/-- What a scan of `loadBody` finds. -/
def loadEffects : Effects :=
  { Effects.empty with
    results := [⟨.virtual, newInstance, some (.reference "java.lang.Class")⟩] }

/-- Objects of `plugin` were created; its name has a blank in front. -/
def pluginLog : ReflectionLog := ⟨[(.classNewInstance, " Plugin")]⟩

/-- More is recorded, but for an operation that is not called. -/
def longerLog : ReflectionLog := ⟨[(.classForName, "Plugin"), (.classNewInstance, " Plugin")]⟩

end Sample

open Sample in
theorem collect_exact_loading :
    ReflectiveEffect.Arises loading pluginLog loadEffects
        (.objectCreation ⟨"Plugin", "<init>", [], .void⟩) ∧
      (loadEffects.HasItself (.objectCreation ⟨"Plugin", "<init>", [], .void⟩) ∨
        (ReflectiveEffects.collect loading pluginLog loadEffects).Has
          (.objectCreation ⟨"Plugin", "<init>", [], .void⟩)) ∧
      (∀ s e, Options.subject loading (load.ref "Loader") = .ok s → s.effects = .ok e →
        ∀ call ∈ e.calls, ∀ k, call.callee.reflectionKind? = some k →
          longerLog.targets k = pluginLog.targets k) ∧
      (⟨.perUnit, longerLog, .guard⟩ : Options).standIn loading (load.ref "Loader") =
        (⟨.perUnit, pluginLog, .guard⟩ : Options).standIn loading (load.ref "Loader") := by
  have harises : ReflectiveEffect.Arises loading pluginLog loadEffects
      (.objectCreation ⟨"Plugin", "<init>", [], .void⟩) := by
    have hcall : ⟨.virtual, newInstance, some (.reference "java.lang.Class")⟩ ∈
        loadEffects.calls := by decide
    have htarget : " Plugin" ∈ pluginLog.targets .classNewInstance := by decide
    have hname : "Plugin" = Text.trimmed " Plugin" := by decide +kernel
    exact ⟨hcall, rfl, htarget, .object (c := plugin) (by decide) hname rfl rfl⟩
  have hsame : ∀ s e, Options.subject loading (load.ref "Loader") = .ok s → s.effects = .ok e →
      ∀ call ∈ e.calls, ∀ k, call.callee.reflectionKind? = some k →
        longerLog.targets k = pluginLog.targets k := by
    intro s e hs he call hcall k hk
    obtain rfl : ⟨loader, load, loadBody⟩ = s := Except.ok.inj hs
    obtain rfl : loadEffects = e := Except.ok.inj he
    obtain rfl := List.mem_singleton.1 hcall
    obtain rfl : .classNewInstance = k := Option.some.inj hk
    rfl
  exact ⟨harises, (collect_exact loading).2.1 _ _ _ harises, hsame,
    (collect_exact loading).2.2 ⟨.perUnit, pluginLog, .guard⟩ longerLog _ hsame⟩

end Standin
