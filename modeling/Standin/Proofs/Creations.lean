import Mathlib.Data.List.Forall2
import Mathlib.Data.List.Nodup
import Standin.Proofs.Closure
import Standin.Proofs.Findings

/-!
# How often a stand-in creates an object

A stand-in creates objects for three reasons: the body creates them, a handler has to catch them, or
the log says that reflection creates them. Each constructor comes up at most once for each reason,
and the log leaves out what the body creates. The exceptions of the handlers are compared with
neither: the constructor of an exception that is created for another reason too is run twice, and no
other one is (`standIn_creations`).
-/

namespace Standin

/-- How many calls of the body run the constructor `k` on a new object. -/
def Body.creations (b : Body) (k : MethodRef) : Nat :=
  b.invocations.countP fun i =>
    i.dispatch = .special && i.callee = k && i.receiver.any (· ∈ b.objects.map Prod.fst)

/-- The call runs the constructor `k` on a new object. -/
def Event.creates (k : MethodRef) (e : Event) : Bool :=
  e.dispatch = .special && e.callee = k && e.object.isSome

theorem Body.creations_eq_countP (b : Body) (k : MethodRef) :
    b.creations k = b.trace.countP (Event.creates k) := by
  rw [trace, List.countP_map]
  refine List.countP_congr fun i _ => ?_
  cases hr : i.receiver <;> simp [Event.creates, Invocation.event, hr]

/-! ## Creations among the calls of a stand-in -/

theorem initializerDeeds_creates (seen : List String) (c : String) (init : Option MethodRef)
    (k : MethodRef) :
    ((initializerDeeds seen c init).map Deed.event).countP (Event.creates k) = 0 := by
  rw [List.countP_eq_zero]
  intro e he
  obtain ⟨deed, hd, rfl⟩ := List.mem_map.1 he
  unfold initializerDeeds at hd
  split at hd
  · cases hd
  · obtain ⟨m, _, rfl⟩ := List.mem_map.1 hd
    simp [Event.creates, Deed.event]

namespace Program

variable {p : Program} {k : MethodRef}

theorem countP_creationDeeds : ∀ (seen : List String) (ks : List MethodRef) (xs : List VarId),
    xs.length = ks.length →
      ((p.creationDeeds seen (ks.zip xs)).map Deed.event).countP (Event.creates k) = ks.count k
  | _, [], _, _ => rfl
  | seen, k' :: ks, x :: xs, hl => by
    have ih := countP_creationDeeds (seen ++ [k'.className]) ks xs (by simpa using hl)
    have hhead : Event.creates k (Deed.construct x k').event = (k' == k) :=
      Bool.and_true (k' == k)
    rw [List.zip_cons_cons, creationDeeds, List.cons_append, List.map_cons, List.map_append,
      List.countP_cons, List.countP_append, initializerDeeds_creates, ih, hhead, List.count_cons,
      Nat.zero_add]

/-- Among all calls of a stand-in only the creations run constructors on new objects. -/
theorem countP_trace {e : Effects} {r : ReflectiveEffects} {supers exceptions : List MethodRef}
    {xs : List VarId} (hl : xs.length = (e.created r exceptions).length) :
    (p.trace e r supers exceptions xs).countP (Event.creates k) =
      (e.created r exceptions).count k := by
  have hother : ∀ {α : Type} (f : α → Event) (ys : List α), (∀ y, (f y).object = none) →
      (ys.map f).countP (Event.creates k) = 0 := by
    intro α f ys hf
    rw [List.countP_eq_zero]
    intro e he
    obtain ⟨y, _, rfl⟩ := List.mem_map.1 he
    simp [Event.creates, hf]
  unfold trace
  rw [List.countP_append, List.countP_append, List.countP_append, countP_creationDeeds _ _ _ hl,
    hother _ supers fun _ => rfl, hother _ (p.lateInitializers e r exceptions) fun _ => rfl,
    hother _ (e.statements ++ e.results ++ r.calls) fun _ => rfl]
  simp only [Nat.zero_add, Nat.add_zero]

end Program

theorem Drafted.creations_tidy {o : Options} {p : Program} {s : Subject} {e : Effects}
    {supers exceptions : List MethodRef} {d : Draft} {code : List Instruction}
    (h : Drafted o p s e supers exceptions d code) (k : MethodRef) :
    d.body.tidy.creations k = (e.created (.collect p o.log e) exceptions).count k := by
  rw [Body.creations_eq_countP, h.sound.inScope.trace_tidy, h.trace, Program.trace_map]
  exact Program.countP_trace (by rw [List.length_map, h.length_objects])

/-! ## Each reason on its own -/

namespace ReflectiveEffects

/-- The log creates each object once, and none that the body creates. -/
structure CreatesAnew (r : ReflectiveEffects) (e : Effects) : Prop where
  nodup : r.objectCreations.Nodup
  disjoint : ∀ k ∈ r.objectCreations, k ∉ e.objectCreations

theorem createsAnew_collect (p : Program) (log : ReflectionLog) (e : Effects) :
    (collect p log e).CreatesAnew e where
  nodup := (distinct_collect p log e).objectCreations
  disjoint k hk := (has_collect_iff (f := .objectCreation k) |>.1 hk).2

end ReflectiveEffects

section Exceptions

variable {p : Program} {classes : List String} {exceptions : List MethodRef}

theorem nodup_exceptions (hc : classes.Nodup)
    (h : List.Forall₂ (fun c k => p.anyConstructor c = .ok k) classes exceptions) :
    exceptions.Nodup := by
  have hmap : exceptions.map MethodRef.className = classes.map id :=
    map_eq_map_of_forall₂ (fun _ _ _ hk => (Program.anyConstructor_eq_ok hk).1) h
  rw [List.map_id] at hmap
  exact .of_map _ (hmap ▸ hc)

theorem mem_exceptions
    (h : List.Forall₂ (fun c k => p.anyConstructor c = .ok k) classes exceptions) {k : MethodRef} :
    k ∈ exceptions ↔ k.className ∈ classes ∧ p.anyConstructor k.className = .ok k := by
  constructor
  · intro hk
    obtain ⟨c, hc, hck⟩ := exists_of_mem_forall₂ h hk
    obtain rfl := (Program.anyConstructor_eq_ok hck).1
    exact ⟨hc, hck⟩
  · rintro ⟨hc, hck⟩
    obtain ⟨k', hk', hck'⟩ := exists_of_mem_forall₂ h.flip hc
    obtain rfl : k = k' := Except.ok.inj (hck.symm.trans hck')
    exact hk'

end Exceptions

/-! ## All reasons together -/

theorem Drafted.creations_eq {o : Options} {p : Program} {s : Subject} {e : Effects}
    {supers exceptions : List MethodRef} {d : Draft} {code : List Instruction}
    (h : Drafted o p s e supers exceptions d code) (he : s.effects = .ok e) (k : MethodRef) :
    d.body.tidy.creations k =
      (if k ∈ e.objectCreations ∨ k ∈ (ReflectiveEffects.collect p o.log e).objectCreations
        then 1 else 0) +
      (if k.className ∈ e.checkedExceptions ∧ p.anyConstructor k.className = .ok k
        then 1 else 0) := by
  obtain ⟨_, hfound⟩ := Subject.effects_eq_ok_iff.1 he
  have hcreated : e.objectCreations.Nodup := hfound ▸ nodup_eraseDups _
  have hclasses : e.checkedExceptions.Nodup := hfound ▸ nodup_eraseDups _
  have hexceptions := nodup_exceptions hclasses h.exceptionConstructors
  have hlog := ReflectiveEffects.createsAnew_collect p o.log e
  have hdisjoint := hlog.disjoint k
  rw [h.creations_tidy, Effects.created, List.count_append, List.count_append, hcreated.count,
    hexceptions.count, hlog.nodup.count]
  simp only [← mem_exceptions h.exceptionConstructors]
  split_ifs <;> simp_all

/-- A stand-in runs each constructor at most once for the body and the log, and once more for the
handlers. So no constructor is run on two new objects if and only if no exception that is handled
is created in the body or by the log. -/
theorem standIn_creations {o : Options} {p : Program} {m : MethodRef} {st : StandIn}
    (h : (o.standIn p m).outcome = .ok st) :
    (∀ k, st.body.creations k =
      (if k ∈ st.effects.objectCreations ∨
          k ∈ (ReflectiveEffects.collect p o.log st.effects).objectCreations then 1 else 0) +
      (if k.className ∈ st.effects.checkedExceptions ∧ p.anyConstructor k.className = .ok k
        then 1 else 0)) ∧
    ((∀ k, st.body.creations k ≤ 1) ↔
      ∀ c ∈ st.effects.checkedExceptions, ∀ k, p.anyConstructor c = .ok k →
        k ∉ st.effects.objectCreations ∧
          k ∉ (ReflectiveEffects.collect p o.log st.effects).objectCreations) := by
  obtain ⟨s, supers, exceptions, d, code, _, he, hd, hbody⟩ := standIn_eq_ok h
  have hcount := fun k => hbody ▸ hd.creations_eq he k
  refine ⟨hcount, fun hone c hc k hk => ?_, fun hnone k => ?_⟩
  · obtain rfl := (Program.anyConstructor_eq_ok hk).1
    rw [← not_or]
    intro hcreated
    have htwo : st.body.creations k = 2 := by rw [hcount, if_pos hcreated, if_pos ⟨hc, hk⟩]
    have hk' := hone k
    omega
  · rw [hcount]
    by_cases hk : k.className ∈ st.effects.checkedExceptions ∧
        p.anyConstructor k.className = .ok k
    · rw [if_neg (not_or.2 (hnone _ hk.1 k hk.2)), if_pos hk]
    · rw [if_neg hk, Nat.add_zero]
      split <;> decide

theorem standIn_creations_sample :
    ∃ st, ((Sample.options .perUnit).standIn Sample.program Sample.constructor).outcome = .ok st ∧
      (∀ k, st.body.creations k =
        (if k ∈ st.effects.objectCreations ∨
            k ∈ (ReflectiveEffects.collect Sample.program (Sample.options .perUnit).log
              st.effects).objectCreations then 1 else 0) +
        (if k.className ∈ st.effects.checkedExceptions ∧
            Sample.program.anyConstructor k.className = .ok k then 1 else 0)) ∧
      ((∀ k, st.body.creations k ≤ 1) ↔
        ∀ c ∈ st.effects.checkedExceptions, ∀ k, Sample.program.anyConstructor c = .ok k →
          k ∉ st.effects.objectCreations ∧
            k ∉ (ReflectiveEffects.collect Sample.program (Sample.options .perUnit).log
              st.effects).objectCreations) :=
  ⟨_, rfl, standIn_creations (m := Sample.constructor) rfl⟩

namespace Sample

/-- A method that creates an exception and handles it. -/
def retrying : Program where
  classes :=
    [library "A" none [method "run" [] true (some
        ⟨[⟨"e", .reference "E"⟩],
          [.assign (.var 0) (.new "E"),
            .invoke ⟨.special, ⟨"E", "<init>", [], .void⟩, some 0, []⟩, .throw (.var 0), .ret none],
          [⟨"E", 0, 3, 3⟩]⟩)],
      library "E" none [method "<init>" [] false none]]
  distinct := by decide

end Sample

/-- The exception is created twice, once for the body and once for the handler. -/
theorem standIn_exception_created_twice :
    ∃ st, ((Sample.options .perUnit).standIn Sample.retrying ⟨"A", "run", [], .void⟩).outcome =
        .ok st ∧
      st.body.creations ⟨"E", "<init>", [], .void⟩ = 2 :=
  ⟨_, rfl, rfl⟩

end Standin
