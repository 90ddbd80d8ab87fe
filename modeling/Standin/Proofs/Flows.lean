import Standin.Proofs.Replacement

/-!
# The types that flow into the shared field

A step stores one object at most, and its type does not depend on what was stored before
(`Step.stored?`, `emit_withFlows`).
-/

namespace Standin

open Draft

/-! ## The order of types -/

theorem Primitive.rank_injective : Function.Injective Primitive.rank := by
  intro p q h
  cases p <;> cases q <;> simp_all [rank]

namespace ValueType

theorem cmp_self (a : ValueType) : a.cmp a = .eq := by
  induction a with
  | primitive p | reference c =>
    rw [cmp]
    exact Std.ReflCmp.compare_self
  | array a n ih =>
    have hn : compare n n = .eq := Std.ReflCmp.compare_self
    rw [cmp, ih, hn]
    rfl

theorem eq_of_cmp {a b : ValueType} (h : a.cmp b = .eq) : a = b := by
  induction a generalizing b with
  | primitive p =>
    cases b with
    | primitive q =>
      have hrank : p.rank = q.rank := Nat.compare_eq_eq.1 h
      exact congrArg _ (Primitive.rank_injective hrank)
    | reference _ | array _ _ => cases h
  | reference c =>
    cases b with
    | reference d => exact congrArg _ (Std.LawfulEqCmp.eq_of_compare h)
    | primitive _ | array _ _ => cases h
  | array a n ih =>
    cases b with
    | array b m =>
      rw [cmp, Ordering.then_eq_eq] at h
      rw [ih h.1, Std.LawfulEqCmp.eq_of_compare h.2]
    | primitive _ | reference _ => cases h

theorem cmp_eq_swap (a b : ValueType) : a.cmp b = (b.cmp a).swap := by
  induction a generalizing b with
  | primitive p =>
    cases b with
    | primitive q =>
      rw [cmp, cmp]
      exact Std.OrientedCmp.eq_swap
    | reference _ | array _ _ => rfl
  | reference c =>
    cases b with
    | reference d =>
      rw [cmp, cmp]
      exact Std.OrientedCmp.eq_swap
    | primitive _ | array _ _ => rfl
  | array a n ih =>
    cases b with
    | array b m =>
      have hnm : compare n m = (compare m n).swap := Std.OrientedCmp.eq_swap
      rw [cmp, cmp, ih, hnm, Ordering.swap_then]
    | primitive _ | reference _ => rfl

theorem isLE_cmp_trans {a b c : ValueType} (hab : (a.cmp b).isLE) (hbc : (b.cmp c).isLE) :
    (a.cmp c).isLE := by
  induction a generalizing b c with
  | primitive p =>
    cases b with
    | primitive q =>
      cases c with
      | primitive r =>
        rw [cmp] at hab hbc ⊢
        exact Std.TransCmp.isLE_trans hab hbc
      | reference _ | array _ _ => rfl
    | reference _ | array _ _ =>
      cases c with
      | primitive _ => cases hbc
      | reference _ | array _ _ => rfl
  | reference x =>
    cases b with
    | primitive _ => cases hab
    | reference y =>
      cases c with
      | primitive _ => cases hbc
      | reference z =>
        rw [cmp] at hab hbc ⊢
        exact Std.TransCmp.isLE_trans hab hbc
      | array _ _ => rfl
    | array _ _ =>
      cases c with
      | primitive _ | reference _ => cases hbc
      | array _ _ => rfl
  | array a n ih =>
    cases b with
    | primitive _ | reference _ => cases hab
    | array b m =>
      cases c with
      | primitive _ | reference _ => cases hbc
      | array c k =>
        rw [cmp, Ordering.isLE_then_iff_or] at hab hbc ⊢
        rcases hab with hab | ⟨hab, hnm⟩
        · rcases hbc with hbc | ⟨hbc, _⟩
          · -- The bases are in order, and they differ: else `b` were both after and before `a`.
            have hac := ih (b := b) (c := c) (by simp [hab]) (by simp [hbc])
            refine .inl ((Ordering.isLE_iff_eq_lt_or_eq_eq.1 hac).resolve_right fun heq => ?_)
            rw [← eq_of_cmp heq, cmp_eq_swap, hab] at hbc
            cases hbc
          · exact .inl (eq_of_cmp hbc ▸ hab)
        · rw [eq_of_cmp hab]
          exact hbc.imp_right fun ⟨hbc, hmk⟩ => ⟨hbc, Std.TransCmp.isLE_trans hnm hmk⟩

theorem isLE_cmp_total (a b : ValueType) : ((a.cmp b).isLE || (b.cmp a).isLE) = true := by
  rw [cmp_eq_swap b a]
  cases a.cmp b <;> rfl

end ValueType

/-! ## Reports -/

theorem mem_flowReport {fs : List ValueType} {t : ValueType} : t ∈ flowReport fs ↔ t ∈ fs := by
  unfold flowReport ValueType.sorted
  rw [List.mem_mergeSort, mem_addAllNew]
  simp

theorem flowReport_increasing (fs : List ValueType) :
    (flowReport fs).Pairwise fun a b => a.cmp b = .lt := by
  have hle : (flowReport fs).Pairwise fun a b => (a.cmp b).isLE := by
    refine List.pairwise_mergeSort ?_ ValueType.isLE_cmp_total _
    exact fun a b c => ValueType.isLE_cmp_trans
  have hne : (flowReport fs).Nodup :=
    (List.mergeSort_perm _ _).nodup_iff.2 (nodup_addAllNew fs List.nodup_nil)
  refine (hle.and hne).imp fun ⟨hle, hne⟩ => ?_
  exact (Ordering.isLE_iff_eq_lt_or_eq_eq.1 hle).resolve_right fun h => hne (ValueType.eq_of_cmp h)

theorem nodup_flowReport (fs : List ValueType) : (flowReport fs).Nodup := by
  refine (flowReport_increasing fs).imp ?_
  rintro a b hab rfl
  rw [ValueType.cmp_self] at hab
  cases hab

/-- A report tells which types there are and nothing else. -/
theorem flowReport_congr {fs gs : List ValueType} (h : ∀ t, t ∈ fs ↔ t ∈ gs) :
    flowReport fs = flowReport gs := by
  have hperm : (flowReport fs).Perm (flowReport gs) := by
    refine (List.perm_ext_iff_of_nodup (nodup_flowReport fs) (nodup_flowReport gs)).2 fun t => ?_
    rw [mem_flowReport, mem_flowReport, h]
  refine hperm.eq_of_pairwise ?_ (flowReport_increasing fs) (flowReport_increasing gs)
  intro a b _ _ hab hba
  rw [ValueType.cmp_eq_swap, hba] at hab
  cases hab

theorem flowReport_eq_iff {fs gs : List ValueType} :
    flowReport fs = flowReport gs ↔ ∀ t, t ∈ fs ↔ t ∈ gs := by
  refine ⟨fun h t => ?_, flowReport_congr⟩
  rw [← mem_flowReport, h, mem_flowReport]

/-! ## What a step stores -/

/-- The type of the object that the step stores, if it stores one; `types` are those of the
variables. -/
def Step.stored? (types : List ValueType) : Step → Option ValueType
  | keep x => types[x]?
  | create _ c _ => some (.reference c)
  | createArray t => some t
  | result c =>
    match c.callee.result with
    | .value t => if t.isReferenceLike then some t else none
    | .void => none
  | _ => none

/-- The types that go into the shared field when values of the types `ts` are stored. -/
def Abstraction.flowing (a : Abstraction) (ts : List ValueType) : List ValueType :=
  match a with
  | shared _ => ts
  | perUnit => []

namespace Draft

/-- The draft with another record of what was stored. -/
def withFlows (d : Draft) (fs : List ValueType) : Draft :=
  { d with flows := fs }

/-- The types of the variables, in the order of their numbers. -/
def types (d : Draft) : List ValueType :=
  d.declared.map Variable.type

variable {a : Abstraction} {g : FieldRef} (d : Draft) (fs : List ValueType)

theorem typeOf?_eq (x : VarId) : d.typeOf? x = d.types[x]? := by
  unfold typeOf? types
  rw [List.getElem?_map]

@[simp]
theorem withFlows_withFlows (gs : List ValueType) :
    (d.withFlows fs).withFlows gs = d.withFlows gs :=
  rfl

@[simp]
theorem withFlows_flows : d.withFlows d.flows = d :=
  rfl

theorem castTo_withFlows (x : VarId) (t : ValueType) :
    (d.withFlows fs).castTo x t = ((d.castTo x t).1.withFlows fs, (d.castTo x t).2) := by
  unfold castTo
  by_cases h : d.typeOf? x = some t
  · have h' : (d.withFlows fs).typeOf? x = some t := h
    rw [if_pos h, if_pos h']
  · have h' : (d.withFlows fs).typeOf? x ≠ some t := h
    have hcasts : (d.withFlows fs).casts = d.casts := rfl
    rw [if_neg h, if_neg h', hcasts]
    rcases d.casts.lookup t with _ | y <;> rfl

theorem representative_withFlows :
    a.representative (d.withFlows fs) =
      ((a.representative d).1.withFlows fs, (a.representative d).2) := by
  have hd : (d.withFlows fs).representative = d.representative := rfl
  cases a with
  | shared f =>
    unfold Abstraction.representative
    simp only [hd]
    rcases d.representative with _ | r <;> rfl
  | perUnit =>
    unfold Abstraction.representative Abstraction.slot
    simp only [hd]
    rcases d.representative with _ | r <;> rfl

theorem representativeAs_withFlows (t : ValueType) :
    a.representativeAs (d.withFlows fs) t =
      ((a.representativeAs d t).1.withFlows fs, (a.representativeAs d t).2) := by
  simp only [Abstraction.representativeAs, representative_withFlows, castTo_withFlows]

theorem valueOf_withFlows (t : ValueType) :
    a.valueOf (d.withFlows fs) t = ((a.valueOf d t).1.withFlows fs, (a.valueOf d t).2) := by
  cases t with
  | primitive p => rfl
  | reference _ | array _ _ => simp only [Abstraction.valueOf, representativeAs_withFlows]

theorem arguments_withFlows (ts : List ValueType) :
    a.arguments (d.withFlows fs) ts =
      ((a.arguments d ts).1.withFlows fs, (a.arguments d ts).2) := by
  induction ts generalizing d with
  | nil => rfl
  | cons t ts ih => simp only [Abstraction.arguments, valueOf_withFlows, ih]

theorem construct_withFlows (x : VarId) (m : MethodRef) :
    a.construct (d.withFlows fs) x m = (a.construct d x m).withFlows fs := by
  simp only [Abstraction.construct, arguments_withFlows]
  rfl

theorem invocation_withFlows (c : Call) :
    a.invocation (d.withFlows fs) c =
      ((a.invocation d c).1.withFlows fs, (a.invocation d c).2) := by
  simp only [Abstraction.invocation, arguments_withFlows, representativeAs_withFlows]
  split <;> rfl

theorem callInitializer_withFlows (c : String) (m : MethodRef) :
    (d.withFlows fs).callInitializer c m = (d.callInitializer c m).withFlows fs := by
  have hd : (d.withFlows fs).initialized = d.initialized := rfl
  unfold callInitializer markInitialized
  rw [hd]
  by_cases hc : c ∈ d.initialized <;> simp only [hc, if_true, if_false] <;> rfl

theorem pushGuarded_withFlows (i : Instruction) :
    (d.withFlows fs).pushGuarded g i = (d.pushGuarded g i).withFlows fs := by
  have hd : (d.withFlows fs).guard = d.guard := rfl
  unfold pushGuarded guardVar
  rw [hd]
  rcases d.guard with _ | x <;> rfl

theorem store_withFlows (x : VarId) :
    a.store (d.withFlows fs) x =
      (a.store d x).withFlows (fs ++ a.flowing (d.typeOf? x).toList) := by
  have hd : (d.withFlows fs).representative = d.representative := rfl
  cases a with
  | shared f => rfl
  | perUnit =>
    unfold Abstraction.store Abstraction.slot
    simp only [hd, Abstraction.flowing, List.append_nil]
    rcases d.representative with _ | r <;> rfl

theorem flows_start (s : Subject) : (start s).flows = [] := by
  rw [start_eq]
  suffices hrun : ∀ (vs : List (Incoming × ValueType)) (d : Draft),
      (vs.foldl receive d).flows = d.flows from hrun s.arrivals Draft.empty
  intro vs
  induction vs with
  | nil => exact fun d => rfl
  | cons v vs ih => exact fun d => ih (d.receive v)

theorem withFlows_silent : d.withFlows fs = d.withFlows (fs ++ a.flowing []) := by
  cases a <;> exact congrArg d.withFlows (List.append_nil fs).symm

end Draft

namespace Step

variable {a : Abstraction} {g : FieldRef} (d : Draft) (fs : List ValueType)

theorem emit_create_withFlows (m : MethodRef) (c : String) (init : Option MethodRef) :
    (create m c init).emit a g (d.withFlows fs) =
      ((create m c init).emit a g d).withFlows (fs ++ a.flowing [.reference c]) := by
  let d₁ := (d.assignNew (.reference c) (.new c)).1
  let x := (d.assignNew (.reference c) (.new c)).2
  let d₂ := a.construct d₁ x m
  let d₃ := init.elim d₂ (d₂.callInitializer c)
  have hx : d₃.typeOf? x = some (.reference c) := by
    obtain ⟨hg₂, _⟩ := construct_spec a g d₁ x m
    obtain ⟨hg₃, _⟩ := initialize_spec a g d₂ m c init
    exact (hg₂.trans hg₃).typeOf? (typeOf?_assignNew _ _ _)
  have hinit : init.elim (d₂.withFlows fs) ((d₂.withFlows fs).callInitializer c) =
      d₃.withFlows fs := by
    cases init with
    | none => rfl
    | some k => exact d₂.callInitializer_withFlows fs c k
  have hconstruct : a.construct (d₁.withFlows fs) x m = d₂.withFlows fs :=
    d₁.construct_withFlows fs x m
  calc (create m c init).emit a g (d.withFlows fs)
      = a.store (init.elim (a.construct (d₁.withFlows fs) x m)
          ((a.construct (d₁.withFlows fs) x m).callInitializer c)) x := rfl
    _ = a.store (d₃.withFlows fs) x := by rw [hconstruct, hinit]
    _ = (a.store d₃ x).withFlows (fs ++ a.flowing [.reference c]) := by
      rw [d₃.store_withFlows, hx, Option.toList_some]

theorem emit_result_withFlows (c : Call) :
    (result c).emit a g (d.withFlows fs) =
      ((result c).emit a g d).withFlows (fs ++ a.flowing ((result c).stored? d.types).toList) := by
  simp only [emit, invocation_withFlows, stored?]
  rcases c.callee.result with _ | t
  · exact withFlows_silent ((a.invocation d c).1.push (.invoke (a.invocation d c).2)) fs
  · simp only
    split
    · let d₁ := ((a.invocation d c).1.assignNew t (.invoke (a.invocation d c).2)).1
      have hx : d₁.typeOf? ((a.invocation d c).1.assignNew t (.invoke (a.invocation d c).2)).2 =
          some t := typeOf?_assignNew _ _ _
      have hstore := d₁.store_withFlows (a := a) fs
        ((a.invocation d c).1.assignNew t (.invoke (a.invocation d c).2)).2
      rw [hx] at hstore
      exact hstore
    · exact withFlows_silent ((a.invocation d c).1.push (.invoke (a.invocation d c).2)) fs

/-- What was stored before does not change what a step writes, and the step adds what it stores. -/
theorem emit_withFlows (s : Step) :
    s.emit a g (d.withFlows fs) =
      (s.emit a g d).withFlows (fs ++ a.flowing (s.stored? d.types).toList) := by
  cases s with
  | superCall m => exact (d.construct_withFlows fs 0 m).trans (withFlows_silent _ fs)
  | keep x =>
    rw [stored?, ← typeOf?_eq]
    exact d.store_withFlows fs x
  | create m c init => exact emit_create_withFlows d fs m c init
  | createArray t =>
    have hx := typeOf?_assignNew d t t.arrayAllocation
    have hstore := (d.assignNew t t.arrayAllocation).1.store_withFlows (a := a) fs
      (d.assignNew t t.arrayAllocation).2
    rw [hx] at hstore
    exact hstore
  | runInitializer c m => exact (d.callInitializer_withFlows fs c m).trans (withFlows_silent _ fs)
  | statement c =>
    refine Eq.trans ?_ (withFlows_silent _ fs)
    simp only [emit, invocation_withFlows]
    rfl
  | result c => exact emit_result_withFlows d fs c
  | mayThrow t =>
    refine Eq.trans ?_ (withFlows_silent _ fs)
    simp only [emit, representativeAs_withFlows]
    exact pushGuarded_withFlows _ fs _
  | ret r =>
    refine Eq.trans ?_ (withFlows_silent _ fs)
    cases r with
    | void => rfl
    | value t =>
      simp only [emit, valueOf_withFlows]
      rfl

theorem flows_emit (s : Step) :
    (s.emit a g d).flows = d.flows ++ a.flowing (s.stored? d.types).toList := by
  have h := congrArg Draft.flows (emit_withFlows (a := a) (g := g) d d.flows s)
  rwa [withFlows_flows] at h

/-- The steps before the first error. -/
def completed : List (Except SynthesisError Step) → List Step
  | [] => []
  | .error _ :: _ => []
  | .ok s :: rest => s :: completed rest

end Step

end Standin
