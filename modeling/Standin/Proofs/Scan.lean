import Standin.Proofs.Plan

/-!
# What a scan finds

The effects of a body name a call if and only if the body makes it (`Effects.targets`), with two
exceptions: the call of a constructor of the superclass is no effect, and a call whose result goes
into an array element is none either if it counts as the write into an array instead
(`Subject.arrayWrite?`).
-/

namespace Standin

/-- How a call is dispatched, and whom it names. -/
def Invocation.target (i : Invocation) : Dispatch × MethodRef :=
  (i.dispatch, i.callee)

/-- How a call that was found is dispatched, and whom it names. -/
def Call.target (c : Call) : Dispatch × MethodRef :=
  (c.dispatch, c.callee)

/-- The call behind an effect; the creation of an object calls a constructor. -/
def Effect.target? : Effect → Option (Dispatch × MethodRef)
  | objectCreation m => some (.special, m)
  | statement c => some c.target
  | result c => some c.target
  | _ => none

namespace Effects

/-- The calls behind the effects of a body. -/
def targets (e : Effects) : List (Dispatch × MethodRef) :=
  e.objectCreations.map (fun m => (.special, m)) ++ e.calls.map Call.target

theorem mem_targets_record {e : Effects} {f : Effect} {t : Dispatch × MethodRef} :
    t ∈ (e.record f).targets ↔ t ∈ e.targets ∨ f.target? = some t := by
  have hadd : ∀ {α : Type} [DecidableEq α] (g : α → Dispatch × MethodRef) (xs : List α) (x : α),
      t ∈ (addNew xs x).map g ↔ t ∈ xs.map g ∨ g x = t := by
    intro α _ g xs x
    simp only [List.mem_map, mem_addNew, or_and_right, exists_or, exists_eq_left]
  unfold targets calls
  cases f with
  | objectCreation m =>
    simp only [record, Effect.target?, List.mem_append, hadd, Option.some.injEq]
    tauto
  | statement c =>
    simp only [record, Effect.target?, List.mem_append, List.map_append, hadd, Option.some.injEq]
    tauto
  | result c =>
    simp only [record, Effect.target?, List.mem_append, List.map_append, hadd, Option.some.injEq]
    tauto
  | _ => simp [record, Effect.target?]

/-- The effect is one of those collected. -/
def Has (e : Effects) : Effect → Prop
  | .arrayCreation t => t ∈ e.arrayCreations
  | .arrayRead => e.readsArray
  | .arrayWrite => e.writesArray
  | .result c => c ∈ e.results
  | .objectCreation m => m ∈ e.objectCreations
  | .statement c => c ∈ e.statements
  | .thrown t => t ∈ e.throwables

theorem has_record {e : Effects} {f g : Effect} : (e.record f).Has g ↔ e.Has g ∨ g = f := by
  cases f <;> cases g <;> simp [record, Has]

theorem not_has_empty (f : Effect) : ¬empty.Has f := by
  cases f <;> simp [empty, Has]

end Effects

namespace Subject

variable {s : Subject}

/-- The instruction may have the effect; which array accesses count is left open. -/
inductive Shows (s : Subject) : Instruction → Effect → Prop
  | arrayCreation {dest : Place} {t : ValueType} {lengths : List Operand} :
    Shows s (.assign dest (.newArray t lengths)) (.arrayCreation t)
  | arrayRead {dest : Place} {value : Expr} : value.isArrayElement →
    Shows s (.assign dest value) .arrayRead
  | arrayWrite {dest : Place} {value : Expr} : dest.isArrayElement →
    Shows s (.assign dest value) .arrayWrite
  | result {dest : Place} {i : Invocation} {c : Call} : s.call i = .ok c →
    Shows s (.assign dest (.invoke i)) (.result c)
  | objectCreation {i : Invocation} : s.isObjectCreation i →
    Shows s (.invoke i) (.objectCreation i.callee)
  | statement {i : Invocation} {c : Call} : s.call i = .ok c → ¬s.isObjectCreation i →
    ¬s.isSuperConstructorCall i → Shows s (.invoke i) (.statement c)
  | thrownVar {x : VarId} {t : ValueType} : s.typeOf x = .ok t →
    Shows s (.throw (.var x)) (.thrown t)
  | thrownConst {k : Constant} {t : ValueType} : k.type? = some t →
    Shows s (.throw (.const k)) (.thrown t)

/-- The position of the instruction that counts as the write into an array, when the scan goes on
from position `k` with the effects `e`. -/
def arrayWriteFrom? (s : Subject) (e : Effects) (k : Nat) : List Instruction → Option Nat
  | [] => none
  | i :: code =>
    match s.effect? e.access i with
    | .ok (some .arrayWrite) => some k
    | .ok (some f) => s.arrayWriteFrom? (e.record f) (k + 1) code
    | .ok none => s.arrayWriteFrom? e (k + 1) code
    | .error _ => none

/-- The position of the instruction that counts as the write into an array. -/
def arrayWrite? (s : Subject) : Option Nat :=
  s.arrayWriteFrom? .empty 0 s.body.code

theorem call_eq_ok {i : Invocation} {c : Call} (h : s.call i = .ok c) : c.target = i.target := by
  unfold call at h
  split at h
  · cases h
    rfl
  · unfold typeOf at h
    split at h
    · cases h
      rfl
    · cases h

/-- What an effect says about its instruction. -/
theorem shows_of_effect? {seen : ArrayAccess} {i : Instruction} {f : Effect}
    (h : s.effect? seen i = .ok (some f)) : s.Shows i f := by
  cases i with
  | assign dest value =>
    simp only [effect?, assignEffect?] at h
    cases value with
    | newArray t lengths =>
      cases h
      exact .arrayCreation
    | invoke i =>
      simp only [Expr.isArrayElement, Bool.and_false, Bool.false_eq_true, if_false] at h
      split at h
      · next hw =>
        cases h
        exact .arrayWrite (Bool.and_eq_true_iff.1 hw).2
      · rcases hc : s.call i with err | c
        · rw [hc] at h
          cases h
        · rw [hc] at h
          cases h
          exact .result hc
    | _ =>
      simp only at h
      split at h
      · next hr =>
        cases h
        exact .arrayRead (Bool.and_eq_true_iff.1 hr).2
      · split at h
        · next hw =>
          cases h
          exact .arrayWrite (Bool.and_eq_true_iff.1 hw).2
        · cases h
  | invoke i =>
    simp only [effect?] at h
    rcases hc : s.call i with err | c
    · rw [hc] at h
      cases h
    · rw [hc] at h
      replace h := Except.ok.inj h
      split at h
      · next ho =>
        cases h
        exact .objectCreation ho
      · next ho =>
        split at h
        · cases h
        · next hs =>
          cases h
          exact .statement hc ho hs
  | throw v =>
    cases v with
    | var x =>
      simp only [effect?] at h
      rcases ht : s.typeOf x with err | t
      · rw [ht] at h
        cases h
      · rw [ht] at h
        cases h
        exact .thrownVar ht
    | const k =>
      obtain ⟨t, ht, rfl⟩ := Option.map_eq_some_iff.1 (Except.ok.inj h)
      exact .thrownConst ht
  | _ => cases h

/-- Which instructions that make a call have what effect. -/
theorem effect?_of_invocation {seen : ArrayAccess} {i : Instruction} {c : Invocation}
    {f : Option Effect} (hi : i.invocation? = some c) (h : s.effect? seen i = .ok f) :
    f.bind Effect.target? = some c.target ∨
      (f = none ∧ i = .invoke c ∧ s.isSuperConstructorCall c) ∨
      (f = some .arrayWrite ∧ ∃ dest, i = .assign dest (.invoke c) ∧ dest.isArrayElement) := by
  cases i with
  | invoke c' =>
    cases hi
    simp only [effect?] at h
    rcases hc : s.call c with err | k
    · rw [hc] at h
      cases h
    · rw [hc] at h
      replace h := Except.ok.inj h
      split at h
      · next ho =>
        subst h
        have hd : c.dispatch = .special := by
          simp only [isObjectCreation, Bool.and_eq_true, decide_eq_true_eq] at ho
          exact ho.1.1
        exact .inl (by simp [Effect.target?, Invocation.target, hd])
      · split at h
        · next hs => exact .inr (.inl ⟨h.symm, rfl, hs⟩)
        · subst h
          exact .inl (by simp [Effect.target?, call_eq_ok hc])
  | assign dest e =>
    cases e with
    | invoke c' =>
      cases hi
      simp only [effect?, assignEffect?, Expr.isArrayElement, Bool.and_false, Bool.false_eq_true,
        if_false] at h
      split at h
      · next hw =>
        cases h
        exact .inr (.inr ⟨rfl, dest, rfl, (Bool.and_eq_true_iff.1 hw).2⟩)
      · rcases hc : s.call c with err | k
        · rw [hc] at h
          cases h
        · rw [hc] at h
          cases h
          exact .inl (by simp [Effect.target?, call_eq_ok hc])
    | _ => cases hi
  | _ => cases hi

theorem invocation?_of_effect {seen : ArrayAccess} {i : Instruction} {f : Effect}
    {t : Dispatch × MethodRef} (h : s.effect? seen i = .ok (some f)) (ht : f.target? = some t) :
    ∃ c, i.invocation? = some c ∧ c.target = t := by
  cases shows_of_effect? h with
  | @result _ i c hc => exact ⟨i, rfl, (call_eq_ok hc).symm.trans (Option.some.inj ht)⟩
  | @objectCreation i ho =>
    refine ⟨i, rfl, Option.some.inj (Eq.trans ?_ ht)⟩
    simp only [isObjectCreation, Bool.and_eq_true, decide_eq_true_eq] at ho
    simp [Effect.target?, Invocation.target, ho.1.1]
  | @statement i c hc _ _ => exact ⟨i, rfl, (call_eq_ok hc).symm.trans (Option.some.inj ht)⟩
  | _ => cases ht

theorem step_eq_ok {e e' : Effects} {i : Instruction} (h : s.step e i = .ok e') :
    ∃ f, s.effect? e.access i = .ok f ∧ e' = f.elim e e.record := by
  unfold step at h
  rcases hf : s.effect? e.access i with err | f
  · rw [hf] at h
    cases h
  · rw [hf] at h
    refine ⟨f, rfl, (Except.ok.inj h).symm.trans ?_⟩
    cases f <;> rfl

theorem foldlM_cons_eq_ok {e e' : Effects} {i : Instruction} {code : List Instruction}
    (h : (i :: code).foldlM s.step e = .ok e') :
    ∃ e₁, s.step e i = .ok e₁ ∧ code.foldlM s.step e₁ = .ok e' := by
  rw [List.foldlM_cons] at h
  rcases he : s.step e i with err | e₁
  · rw [he] at h
    cases h
  · rw [he] at h
    exact ⟨e₁, rfl, h⟩

theorem targets_subset {e e' : Effects} {code : List Instruction}
    (h : code.foldlM s.step e = .ok e') : e.targets ⊆ e'.targets := by
  induction code generalizing e with
  | nil =>
    cases h
    exact List.Subset.refl _
  | cons i code ih =>
    obtain ⟨e₁, hstep, h⟩ := foldlM_cons_eq_ok h
    obtain ⟨f, _, rfl⟩ := step_eq_ok hstep
    refine List.Subset.trans (fun t ht => ?_) (ih h)
    cases f with
    | none => exact ht
    | some f => exact Effects.mem_targets_record.2 (.inl ht)

theorem exists_of_mem_targets {e e' : Effects} {code : List Instruction}
    (h : code.foldlM s.step e = .ok e') {t : Dispatch × MethodRef} (ht : t ∈ e'.targets) :
    t ∈ e.targets ∨ ∃ i ∈ code, ∃ c, i.invocation? = some c ∧ c.target = t := by
  induction code generalizing e with
  | nil =>
    cases h
    exact .inl ht
  | cons i code ih =>
    obtain ⟨e₁, hstep, h⟩ := foldlM_cons_eq_ok h
    obtain ⟨f, hf, rfl⟩ := step_eq_ok hstep
    rcases ih h with ht | ⟨j, hj, hc⟩
    · cases f with
      | none => exact .inl ht
      | some f =>
        rcases Effects.mem_targets_record.1 ht with ht | ht
        · exact .inl ht
        · exact .inr ⟨i, List.mem_cons_self, invocation?_of_effect hf ht⟩
    · exact .inr ⟨j, List.mem_cons_of_mem _ hj, hc⟩

theorem not_writes_of_arrayWrite {seen : ArrayAccess} {i : Instruction}
    (h : s.effect? seen i = .ok (some .arrayWrite)) : seen.writes = false := by
  cases i with
  | assign dest e =>
    simp only [effect?, assignEffect?] at h
    cases e with
    | newArray t lengths => cases h
    | invoke c =>
      simp only at h
      split at h
      · cases h
      · split at h
        · next hw => simpa using (Bool.and_eq_true_iff.1 hw).1
        · rcases hc : s.call c with err | k <;> rw [hc] at h <;> cases h
    | _ =>
      simp only at h
      split at h
      · cases h
      · split at h
        · next hw => simpa using (Bool.and_eq_true_iff.1 hw).1
        · cases h
  | invoke c =>
    simp only [effect?] at h
    rcases hc : s.call c with err | k
    · rw [hc] at h
      cases h
    · rw [hc] at h
      replace h := Except.ok.inj h
      split at h
      · cases h
      · split at h <;> cases h
  | throw v =>
    cases v with
    | var x =>
      simp only [effect?] at h
      rcases ht : s.typeOf x with err | t <;> rw [ht] at h <;> cases h
    | const k =>
      obtain ⟨t, _, ht⟩ := Option.map_eq_some_iff.1 (Except.ok.inj h)
      cases ht
  | _ => cases h

/-- There is one write into an array at most that counts. -/
theorem arrayWriteFrom?_of_writes {e : Effects} (he : e.writesArray = true) (k : Nat)
    (code : List Instruction) : s.arrayWriteFrom? e k code = none := by
  induction code generalizing e k with
  | nil => rfl
  | cons i code ih =>
    unfold arrayWriteFrom?
    split
    · next hw =>
      have := not_writes_of_arrayWrite hw
      rw [show e.access.writes = true from he] at this
      cases this
    · next f _ _ =>
      refine ih ?_ (k + 1)
      cases f with
      | arrayWrite => rfl
      | _ => exact he
    · exact ih he (k + 1)
    · rfl

/-- A scan that goes on from position `k` passes over no call but the two exceptions. -/
theorem mem_targets_of_scan {e e' : Effects} {code : List Instruction} {k j : Nat}
    {i : Instruction} {c : Invocation} (h : code.foldlM s.step e = .ok e')
    (hj : code[j]? = some i) (hi : i.invocation? = some c) :
    c.target ∈ e'.targets ∨ (i = .invoke c ∧ s.isSuperConstructorCall c) ∨
      (s.arrayWriteFrom? e k code = some (k + j) ∧
        ∃ dest, i = .assign dest (.invoke c) ∧ dest.isArrayElement) := by
  -- On the code from position `k` on, with the effects `e` found before it: what the first
  -- instruction adds is never taken back, so the one at `j` is looked at with all before it done.
  induction code generalizing e k j with
  | nil => cases hj
  | cons i' code ih =>
    obtain ⟨e₁, hstep, h⟩ := foldlM_cons_eq_ok h
    obtain ⟨f, hf, rfl⟩ := step_eq_ok hstep
    cases j with
    | zero =>
      cases hj
      rcases effect?_of_invocation hi hf with ht | ⟨_, hs⟩ | ⟨rfl, hw⟩
      · obtain ⟨f, rfl, ht⟩ := Option.bind_eq_some_iff.1 ht
        exact .inl (targets_subset h (Effects.mem_targets_record.2 (.inr ht)))
      · exact .inr (.inl hs)
      · exact .inr (.inr ⟨by simp [arrayWriteFrom?, hf], hw⟩)
    | succ j =>
      rcases ih (k := k + 1) h hj with ht | hs | ⟨hw, hdest⟩
      · exact .inl ht
      · exact .inr (.inl hs)
      · refine .inr (.inr ⟨?_, hdest⟩)
        rw [Nat.add_right_comm] at hw
        unfold arrayWriteFrom?
        rw [hf]
        split
        · next hf' =>
          cases Except.ok.inj hf'
          rw [arrayWriteFrom?_of_writes rfl] at hw
          cases hw
        · next hf' =>
          cases Except.ok.inj hf'
          exact hw
        · next hf' =>
          cases Except.ok.inj hf'
          exact hw
        · next hf' => cases hf'

theorem effects_eq_ok {e : Effects} (h : s.effects = .ok e) :
    ∃ e', s.body.code.foldlM s.step Effects.empty = .ok e' ∧
      e = { e' with
        checkedExceptions := addAllNew [] (s.body.handlers.map Handler.exception) } := by
  unfold effects at h
  rcases hrun : s.body.code.foldlM s.step Effects.empty with err | e'
  · rw [hrun] at h
    cases h
  · rw [hrun] at h
    exact ⟨e', rfl, (Except.ok.inj h).symm⟩

/-- What the effects of a body say about its calls. -/
theorem mem_targets_of_effects {e : Effects} (h : s.effects = .ok e) {j : Nat} {i : Instruction}
    {c : Invocation} (hj : s.body.code[j]? = some i) (hi : i.invocation? = some c) :
    c.target ∈ e.targets ∨ (i = .invoke c ∧ s.isSuperConstructorCall c) ∨
      (s.arrayWrite? = some j ∧ ∃ dest, i = .assign dest (.invoke c) ∧ dest.isArrayElement) := by
  obtain ⟨e', hrun, rfl⟩ := effects_eq_ok h
  have := mem_targets_of_scan (k := 0) hrun hj hi
  rwa [Nat.zero_add] at this

theorem exists_of_has_scan {e e' : Effects} {code : List Instruction}
    (h : code.foldlM s.step e = .ok e') {f : Effect} (hf : e'.Has f) :
    e.Has f ∨ ∃ i ∈ code, s.Shows i f := by
  induction code generalizing e with
  | nil =>
    cases h
    exact .inl hf
  | cons i code ih =>
    obtain ⟨e₁, hstep, h⟩ := foldlM_cons_eq_ok h
    obtain ⟨g, hg, rfl⟩ := step_eq_ok hstep
    rcases ih h with hf | ⟨j, hj, hs⟩
    · cases g with
      | none => exact .inl hf
      | some g =>
        rcases Effects.has_record.1 hf with hf | rfl
        · exact .inl hf
        · exact .inr ⟨i, List.mem_cons_self, shows_of_effect? hg⟩
    · exact .inr ⟨j, List.mem_cons_of_mem _ hj, hs⟩

/-- Every effect of a body is that of an instruction. -/
theorem exists_of_has {e : Effects} (h : s.effects = .ok e) {f : Effect} (hf : e.Has f) :
    ∃ i ∈ s.body.code, s.Shows i f := by
  obtain ⟨e', hrun, rfl⟩ := effects_eq_ok h
  have hf' : e'.Has f := by cases f <;> exact hf
  exact (exists_of_has_scan hrun hf').resolve_left (Effects.not_has_empty f)

theorem isConstructor_of_effects {e : Effects} (h : s.effects = .ok e) :
    ∀ m ∈ e.objectCreations, m.isConstructor := by
  intro m hm
  obtain ⟨i, _, hs⟩ := exists_of_has (f := .objectCreation m) h hm
  cases hs with
  | objectCreation ho =>
    simp only [isObjectCreation, Bool.and_eq_true] at ho
    exact ho.1.2

theorem exists_of_mem_effects {e : Effects} (h : s.effects = .ok e) {t : Dispatch × MethodRef}
    (ht : t ∈ e.targets) : ∃ i ∈ s.body.code, ∃ c, i.invocation? = some c ∧ c.target = t := by
  obtain ⟨e', hrun, rfl⟩ := effects_eq_ok h
  rcases exists_of_mem_targets hrun ht with ht | hi
  · cases ht
  · exact hi

/-! ## Bodies that can be scanned -/

theorem exists_typeOf {x : VarId} (h : x < s.body.declared.length) : ∃ t, s.typeOf x = .ok t := by
  unfold typeOf
  rcases ht : s.body.typeOf? x with _ | t
  · exact absurd h (Nat.not_lt.2 (Body.typeOf?_eq_none.1 ht))
  · exact ⟨t, rfl⟩

theorem exists_call {i : Invocation} (h : ∀ x ∈ i.vars, x < s.body.declared.length) :
    ∃ c, s.call i = .ok c := by
  unfold call
  rcases hr : i.receiver with _ | x
  · exact ⟨_, rfl⟩
  · obtain ⟨t, ht⟩ := exists_typeOf (h x (by simp [Invocation.vars, hr]))
    exact ⟨_, by simp only [ht]; rfl⟩

theorem exists_effect? {i : Instruction} (h : ∀ x ∈ i.vars, x < s.body.declared.length)
    (seen : ArrayAccess) : ∃ f, s.effect? seen i = .ok f := by
  cases i with
  | assign dest value =>
    cases value with
    | newArray t lengths => exact ⟨_, rfl⟩
    | invoke c =>
      obtain ⟨k, hk⟩ := exists_call (s := s) (i := c) fun x hx => h x (List.mem_append_right _ hx)
      simp only [effect?, assignEffect?, hk]
      split
      · exact ⟨_, rfl⟩
      · split <;> exact ⟨_, rfl⟩
    | _ =>
      simp only [effect?, assignEffect?]
      split
      · exact ⟨_, rfl⟩
      · split <;> exact ⟨_, rfl⟩
  | invoke c =>
    obtain ⟨k, hk⟩ := exists_call (s := s) (i := c) h
    exact ⟨_, by simp only [effect?, hk]; rfl⟩
  | throw v =>
    cases v with
    | var x =>
      obtain ⟨t, ht⟩ := exists_typeOf (h x (by simp [Instruction.vars, Operand.vars]))
      exact ⟨_, by simp only [effect?, ht]; rfl⟩
    | const k => exact ⟨_, rfl⟩
  | _ => exact ⟨_, rfl⟩

theorem exists_scan {code : List Instruction}
    (h : ∀ i ∈ code, ∀ x ∈ i.vars, x < s.body.declared.length) (e : Effects) :
    ∃ e', code.foldlM s.step e = .ok e' := by
  induction code generalizing e with
  | nil => exact ⟨e, rfl⟩
  | cons i code ih =>
    obtain ⟨f, hf⟩ := exists_effect? (h i List.mem_cons_self) e.access
    obtain ⟨e', he'⟩ := ih (fun j hj => h j (List.mem_cons_of_mem _ hj)) (f.elim e e.record)
    refine ⟨e', ?_⟩
    rw [List.foldlM_cons, step, hf]
    cases f <;> exact he'

/-- A scan fails on variables that are not declared only. -/
theorem exists_effects (h : s.body.Scoped) : ∃ e, s.effects = .ok e := by
  obtain ⟨e, he⟩ := exists_scan h Effects.empty
  unfold effects
  rw [he]
  exact ⟨_, rfl⟩

end Subject

end Standin
