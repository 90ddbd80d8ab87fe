import Mathlib.Data.Set.Function
import Mathlib.Order.Interval.Set.Defs
import Standin.Proofs.Plan
import Standin.Proofs.Straight

/-!
# Drafts with different places

The drafts of one plan for a shared field and for a place of the body differ in what goes into the
place and comes out of it (`Abstraction.isTraffic`), and so in the numbers of variables and of
instructions: the shared field is loaded when an object is first needed, while a place of the body
gets its variable when something is first stored. But for that they are alike: a map of variables
takes the other instructions of one to those of the other (`Draft.Alike`). Every operation on drafts
keeps them alike, by a map that goes on from the one before (`Draft.Extends`), so a plan does
(`Alike.run`).
-/

namespace Standin

/-! ## Instructions -/

namespace Instruction

variable {f : FieldRef} {σ : VarId → VarId}

/-- The instruction with its target left open. -/
def bare (i : Instruction) : Instruction :=
  i.mapTarget fun _ => 0

@[simp]
theorem bare_mapTarget (m : Nat → Nat) (i : Instruction) : (i.mapTarget m).bare = i.bare := by
  cases i <;> rfl

theorem bare_mapVars (σ : VarId → VarId) (i : Instruction) :
    (i.mapVars σ).bare = i.bare.mapVars σ := by
  cases i <;> rfl

@[simp]
theorem vars_bare (i : Instruction) : i.bare.vars = i.vars :=
  vars_mapTarget _ i

/-- The instruction loads the static field or stores into it. -/
def accesses (f : FieldRef) : Instruction → Bool
  | assign (.staticField f') _ => f' = f
  | assign _ (.staticField f') => f' = f
  | _ => false

@[simp]
theorem accesses_mapTarget (m : Nat → Nat) (i : Instruction) :
    (i.mapTarget m).accesses f = i.accesses f := by
  cases i <;> rfl

@[simp]
theorem accesses_mapVars (i : Instruction) : (i.mapVars σ).accesses f = i.accesses f := by
  cases i with
  | assign dest e => cases dest <;> cases e <;> rfl
  | _ => rfl

end Instruction

/-! ## What goes through the place -/

/-- The instruction puts an object into the place or takes one from it, where the variable `r`
stands for all objects. -/
def Abstraction.isTraffic (a : Abstraction) (r : Option VarId) (i : Instruction) : Bool :=
  match a with
  | shared f => i.accesses f
  | perUnit => i.written?.any fun x => r = some x

namespace Abstraction

variable {a : Abstraction} {r : Option VarId} {i : Instruction}

@[simp]
theorem isTraffic_mapTarget (m : Nat → Nat) : a.isTraffic r (i.mapTarget m) = a.isTraffic r i := by
  cases a <;> simp [isTraffic]

theorem isTraffic_perUnit_eq_true :
    perUnit.isTraffic r i ↔ ∃ x, i.written? = some x ∧ r = some x := by
  simp [isTraffic, Option.any_eq_true]

theorem isTraffic_perUnit_of_origin? (h : i.origin? = none) : perUnit.isTraffic r i = false := by
  simp [isTraffic, Instruction.written?, h]

end Abstraction

namespace Draft

/-- The code of the draft but for what goes through the place. -/
def trimmed (a : Abstraction) (d : Draft) : List Instruction :=
  (d.code.filter fun i => !a.isTraffic d.representative i).map Instruction.bare

theorem trimmed_push (a : Abstraction) (d : Draft) (i : Instruction) :
    (d.push i).trimmed a =
      d.trimmed a ++ if a.isTraffic d.representative i then [] else [i.bare] := by
  have hr : (d.push i).representative = d.representative := rfl
  have hc : (d.push i).code = d.code ++ [i] := rfl
  rw [trimmed, trimmed, hr, hc, List.filter_append, List.map_append]
  cases hi : a.isTraffic d.representative i <;> simp [hi]

theorem trimmed_assignNew (a : Abstraction) (d : Draft) (t : ValueType) (e : Expr) :
    (d.assignNew t e).1.trimmed a = d.trimmed a ++
      if a.isTraffic d.representative (.assign (.var d.declared.length) e) then []
      else [.assign (.var d.declared.length) e] :=
  trimmed_push a (d.newVar t).1 (.assign (.var d.declared.length) e)

theorem length_assignNew (d : Draft) (t : ValueType) (e : Expr) :
    (d.assignNew t e).1.declared.length = d.declared.length + 1 := by
  simp [assignNew, newVar, push]

theorem typeOf?_assignNew_of_lt {d : Draft} {x : VarId} (hx : x < d.declared.length)
    (t : ValueType) (e : Expr) : (d.assignNew t e).1.typeOf? x = d.typeOf? x := by
  have hd : (d.assignNew t e).1.declared =
      d.declared ++ [⟨"$t" ++ d.declared.length.repr, t⟩] := rfl
  rw [typeOf?, typeOf?, hd, List.getElem?_append_left hx]

theorem Sound.representative_ne_length {a : Abstraction} {g : FieldRef} {d : Draft}
    (h : d.Sound a g) : d.representative ≠ some d.declared.length :=
  fun hr => Nat.lt_irrefl _ (h.representative _ hr).lt

/-- `σ'` goes on from `σ`, and `d'` from `d`. -/
structure Extends (σ σ' : VarId → VarId) (d d' : Draft) : Prop where
  length_le : d.declared.length ≤ d'.declared.length
  eqOn : ∀ x < d.declared.length, σ' x = σ x

namespace Extends

variable {σ σ' σ'' : VarId → VarId} {d d' d'' : Draft}

theorem refl (σ : VarId → VarId) (d : Draft) : Extends σ σ d d :=
  ⟨Nat.le_refl _, fun _ _ => rfl⟩

theorem trans (h : Extends σ σ' d d') (h' : Extends σ' σ'' d' d'') : Extends σ σ'' d d'' :=
  ⟨Nat.le_trans h.length_le h'.length_le, fun x hx =>
    (h'.eqOn x (Nat.lt_of_lt_of_le hx h.length_le)).trans (h.eqOn x hx)⟩

end Extends

/-- The drafts `d₁` for the shared field `f` and `d₂` for a place of the body are alike: `σ` takes
the variables of `d₁` to variables of `d₂` with the same part. -/
structure Alike (f g : FieldRef) (σ : VarId → VarId) (d₁ d₂ : Draft) : Prop where
  left : d₁.Sound (.shared f) g
  right : d₂.Sound .perUnit g
  injective : Set.InjOn σ (Set.Iio d₁.declared.length)
  types : ∀ x < d₁.declared.length, d₂.typeOf? (σ x) = d₁.typeOf? x
  representatives : ∀ x < d₁.declared.length,
    d₁.representative = some x ↔ d₂.representative = some (σ x)
  casts : d₂.casts = d₁.casts.map fun p => (p.1, σ p.2)
  guard : d₂.guard = d₁.guard.map σ
  initialized : d₂.initialized = d₁.initialized
  code : d₂.trimmed .perUnit = (d₁.trimmed (.shared f)).map (Instruction.mapVars σ)

namespace Alike

variable {f g : FieldRef} {σ σ' : VarId → VarId} {d₁ d₂ : Draft}

theorem lt (h : Alike f g σ d₁ d₂) {x : VarId} (hx : x < d₁.declared.length) :
    σ x < d₂.declared.length := by
  have ht : d₁.typeOf? x = some d₁.declared[x].type := by simp [typeOf?, hx]
  exact Body.lt_of_typeOf? (b := d₂.body) ((h.types x hx).trans ht)

theorem representative_right (h : Alike f g σ d₁ d₂) {r : VarId} (hr : d₁.representative = some r) :
    d₂.representative = some (σ r) :=
  (h.representatives r (h.left.representative r hr).lt).1 hr

/-- Only the variables of the first draft matter. -/
theorem congr (h : Alike f g σ d₁ d₂) (hσ : ∀ x < d₁.declared.length, σ' x = σ x) :
    Alike f g σ' d₁ d₂ where
  left := h.left
  right := h.right
  injective := h.injective.congr fun x hx => (hσ x hx).symm
  types x hx := by rw [hσ x hx, h.types x hx]
  representatives x hx := by rw [hσ x hx, h.representatives x hx]
  casts := by
    rw [h.casts]
    refine List.map_congr_left fun p hp => ?_
    rw [hσ p.2 (Body.lt_of_typeOf? (b := d₁.body) (h.left.casts p.1 p.2 hp).1)]
  guard := by
    rw [h.guard]
    refine Option.map_congr fun x hx => ?_
    rw [hσ x (Body.lt_of_typeOf? (b := d₁.body) (h.left.guard x hx).1)]
  initialized := h.initialized
  code := by
    rw [h.code]
    refine List.map_congr_left fun i hi => Instruction.mapVars_congr fun x hx => ?_
    obtain ⟨j, hj, rfl⟩ := List.mem_map.1 hi
    rw [Instruction.vars_bare] at hx
    exact (hσ x (h.left.inScope j (List.mem_filter.1 hj).1 x hx)).symm

/-- A map for one more variable. -/
theorem extend (h : Alike f g σ d₁ d₂) (y : VarId) :
    ∃ σ', (∀ x < d₁.declared.length, σ' x = σ x) ∧ σ' d₁.declared.length = y ∧
      Alike f g σ' d₁ d₂ := by
  have hσ : ∀ x < d₁.declared.length, Function.update σ d₁.declared.length y x = σ x :=
    fun x hx => Function.update_of_ne (Nat.ne_of_lt hx) _ _
  exact ⟨_, hσ, Function.update_self _ _ _, h.congr hσ⟩

theorem injOn_succ {n : Nat} (h : Set.InjOn σ (Set.Iio n)) (hn : ∀ x < n, σ x ≠ σ n) :
    Set.InjOn σ (Set.Iio (n + 1)) := by
  intro x hx y hy hxy
  rcases Nat.lt_succ_iff_lt_or_eq.1 hx with hx | rfl <;>
    rcases Nat.lt_succ_iff_lt_or_eq.1 hy with hy | rfl
  · exact h hx hy hxy
  · exact absurd hxy (hn x hx)
  · exact absurd hxy.symm (hn y hy)
  · rfl

/-! ### Instructions -/

theorem push (h : Alike f g σ d₁ d₂) (m : Nat → Nat) {i : Instruction} (ho : i.origin? = none)
    (hf : i.accesses f = false) (hi : ∀ x ∈ i.vars, x < d₁.declared.length) :
    Alike f g σ (d₁.push i) (d₂.push ((i.mapVars σ).mapTarget m)) := by
  have ho' : ((i.mapVars σ).mapTarget m).origin? = none := by
    rw [Instruction.origin?_mapTarget, Instruction.origin?_mapVars, ho]
    rfl
  refine ⟨h.left.push ho hi, h.right.push ho' fun y hy => ?_, h.injective, h.types,
    h.representatives, h.casts, h.guard, h.initialized, ?_⟩
  · rw [Instruction.vars_mapTarget, Instruction.vars_mapVars] at hy
    obtain ⟨x, hx, rfl⟩ := List.mem_map.1 hy
    exact h.lt (hi x hx)
  · have h₁ : (Abstraction.shared f).isTraffic d₁.representative i = false := hf
    have h₂ := Abstraction.isTraffic_perUnit_of_origin? (r := d₂.representative) ho'
    rw [trimmed_push, trimmed_push, h₁, h₂, h.code, List.map_append]
    simp [Instruction.bare_mapVars]

/-- Both drafts get a new variable with the same value. -/
theorem introduce (h : Alike f g σ d₁ d₂) (hσ : σ d₁.declared.length = d₂.declared.length)
    (t : ValueType) {e : Expr} (hf : e ≠ .staticField f)
    (he : ∀ x ∈ e.vars, x < d₁.declared.length) :
    Alike f g σ (d₁.assignNew t e).1 (d₂.assignNew t (e.mapVars σ)).1 where
  left := h.left.assignNew t he
  right := by
    refine h.right.assignNew t fun y hy => ?_
    have hv : (e.mapVars σ).vars = e.vars.map σ :=
      Instruction.vars_mapVars σ (.assign (.staticField f) e)
    rw [hv] at hy
    obtain ⟨x, hx, rfl⟩ := List.mem_map.1 hy
    exact h.lt (he x hx)
  injective := by
    rw [length_assignNew]
    refine injOn_succ h.injective fun x hx => ?_
    rw [hσ]
    exact Nat.ne_of_lt (h.lt hx)
  types x hx := by
    rw [length_assignNew] at hx
    rcases Nat.lt_succ_iff_lt_or_eq.1 hx with hx | rfl
    · rw [typeOf?_assignNew_of_lt hx, typeOf?_assignNew_of_lt (h.lt hx), h.types x hx]
    · rw [hσ]
      exact (typeOf?_assignNew d₂ t _).trans (typeOf?_assignNew d₁ t e).symm
  representatives x hx := by
    rw [length_assignNew] at hx
    rcases Nat.lt_succ_iff_lt_or_eq.1 hx with hx | rfl
    · exact h.representatives x hx
    · rw [hσ]
      exact ⟨fun hr => absurd hr h.left.representative_ne_length,
        fun hr => absurd hr h.right.representative_ne_length⟩
  casts := h.casts
  guard := h.guard
  initialized := h.initialized
  code := by
    have h₁ : (Abstraction.shared f).isTraffic d₁.representative
        (.assign (.var d₁.declared.length) e) = false := by
      cases e with
      | staticField f' => simpa [Abstraction.isTraffic, Instruction.accesses] using hf
      | _ => rfl
    have h₂ : Abstraction.perUnit.isTraffic d₂.representative
        (.assign (.var d₂.declared.length) (e.mapVars σ)) = false := by
      rw [← Bool.not_eq_true, Abstraction.isTraffic_perUnit_eq_true]
      rintro ⟨x, hx, hr⟩
      cases hx
      exact h.right.representative_ne_length hr
    rw [trimmed_assignNew, trimmed_assignNew, h₁, h₂, h.code, List.map_append]
    simp [Instruction.mapVars, Place.mapVars, hσ]

theorem assignNew (h : Alike f g σ d₁ d₂) (t : ValueType) {e : Expr} (hf : e ≠ .staticField f)
    (he : ∀ x ∈ e.vars, x < d₁.declared.length) :
    ∃ σ', Extends σ σ' d₁ (d₁.assignNew t e).1 ∧
      σ' (d₁.assignNew t e).2 = (d₂.assignNew t (e.mapVars σ)).2 ∧
      Alike f g σ' (d₁.assignNew t e).1 (d₂.assignNew t (e.mapVars σ)).1 := by
  obtain ⟨σ', hσ, hnew, h'⟩ := h.extend d₂.declared.length
  have hmap : e.mapVars σ = e.mapVars σ' := Expr.mapVars_congr fun x hx => (hσ x (he x hx)).symm
  refine ⟨σ', ⟨?_, hσ⟩, hnew, ?_⟩
  · rw [length_assignNew]
    exact Nat.le_succ _
  · rw [hmap]
    exact h'.introduce hnew t hf he

/-! ### The place -/

theorem storeLeft (h : Alike f g σ d₁ d₂) {x : VarId} (hx : x < d₁.declared.length) :
    Alike f g σ ((Abstraction.shared f).store d₁ x) d₂ := by
  refine ⟨(Abstraction.shared f).store_sound g d₁ h.left hx, h.right, h.injective, h.types,
    h.representatives, h.casts, h.guard, h.initialized, h.code.trans (congrArg _ ?_)⟩
  have htraffic : (Abstraction.shared f).isTraffic d₁.representative
      (.assign (.staticField f) (.use (.var x))) = true := by
    simp [Abstraction.isTraffic, Instruction.accesses]
  refine Eq.symm ((trimmed_push (.shared f) d₁ (.assign (.staticField f) (.use (.var x)))).trans ?_)
  rw [htraffic, if_pos rfl, List.append_nil]

/-- The place of the body gets its variable. -/
theorem slot (h : Alike f g σ d₁ d₂) (hn : d₂.representative = none) {e : Expr}
    (hs : (Abstraction.newRepresentative d₂ .object e).1.Sound .perUnit g) :
    Alike f g σ d₁ (Abstraction.newRepresentative d₂ .object e).1 where
  left := h.left
  right := hs
  injective := h.injective
  types x hx := (typeOf?_assignNew_of_lt (h.lt hx) .object e).trans (h.types x hx)
  representatives x hx := by
    have h₁ : d₁.representative ≠ some x := by
      intro hr
      rw [h.representative_right hr] at hn
      cases hn
    have h₂ : some d₂.declared.length ≠ some (σ x) := fun hr =>
      Nat.ne_of_gt (h.lt hx) (Option.some.inj hr)
    exact ⟨fun hr => absurd hr h₁, fun hr => absurd hr h₂⟩
  casts := h.casts
  guard := h.guard
  initialized := h.initialized
  code := by
    refine Eq.trans ?_ h.code
    have hold : ∀ i ∈ d₂.code,
        (!Abstraction.perUnit.isTraffic (some d₂.declared.length) i) =
          !Abstraction.perUnit.isTraffic d₂.representative i := by
      intro i hi
      have hw : i.written? ≠ some d₂.declared.length := by
        intro hw
        obtain ⟨o, ho⟩ := Instruction.written?_eq_some.1 hw
        exact Nat.lt_irrefl _ (h.right.inScope i hi _ (Instruction.mem_vars_of_origin? ho))
      rw [hn]
      rcases hi' : i.written? with _ | x
      · simp [Abstraction.isTraffic, hi']
      · have hx : d₂.declared.length ≠ x := fun hx => hw (hx ▸ hi')
        simp [Abstraction.isTraffic, hi', hx]
    have hcode : (Abstraction.newRepresentative d₂ .object e).1.code =
        d₂.code ++ [.assign (.var d₂.declared.length) e] := rfl
    have hrep : (Abstraction.newRepresentative d₂ .object e).1.representative =
        some d₂.declared.length := rfl
    rw [trimmed, trimmed, hcode, hrep, List.filter_append, List.filter_congr hold]
    simp [Abstraction.isTraffic, Instruction.written?, Instruction.origin?]

theorem storeRight (h : Alike f g σ d₁ d₂) {y : VarId} (hy : y < d₂.declared.length) :
    Alike f g σ d₁ (Abstraction.perUnit.store d₂ y) := by
  have hs := Abstraction.perUnit.store_sound g d₂ h.right hy
  rcases hd : d₂.representative with _ | r
  · have hstore : Abstraction.perUnit.store d₂ y =
        (Abstraction.newRepresentative d₂ .object (.use (.var y))).1 := by
      simp only [Abstraction.store, Abstraction.slot, hd]
      rfl
    rw [hstore] at hs ⊢
    exact h.slot hd hs
  · have hstore : Abstraction.perUnit.store d₂ y = d₂.push (.assign (.var r) (.use (.var y))) := by
      simp only [Abstraction.store, Abstraction.slot, hd]
    have htraffic : Abstraction.perUnit.isTraffic d₂.representative
        (.assign (.var r) (.use (.var y))) = true := by
      simp [Abstraction.isTraffic, Instruction.written?, Instruction.origin?, hd]
    rw [hstore] at hs ⊢
    refine ⟨h.left, hs, h.injective, h.types, h.representatives, h.casts, h.guard,
      h.initialized, ?_⟩
    rw [trimmed_push, htraffic, if_pos rfl, List.append_nil, h.code]

theorem store (h : Alike f g σ d₁ d₂) {x : VarId} (hx : x < d₁.declared.length) :
    Alike f g σ ((Abstraction.shared f).store d₁ x) (Abstraction.perUnit.store d₂ (σ x)) :=
  (h.storeLeft hx).storeRight (h.lt hx)

/-- The shared field is loaded, where the place of the body has its variable already. -/
theorem load (h : Alike f g σ d₁ d₂) (ht : f.type = .object) (hn : d₁.representative = none)
    (hr : d₂.representative = some (σ d₁.declared.length)) :
    Alike f g σ (Abstraction.newRepresentative d₁ f.type (.staticField f)).1 d₂ := by
  have hlen : (Abstraction.newRepresentative d₁ f.type (.staticField f)).1.declared.length =
      d₁.declared.length + 1 := length_assignNew d₁ f.type (.staticField f)
  have hother : ∀ x < d₁.declared.length, d₂.representative ≠ some (σ x) := by
    intro x hx hr'
    rw [(h.representatives x hx).2 hr'] at hn
    cases hn
  have hs := ((Abstraction.shared f).representative_prepares g d₁).1.sound h.left
  rw [Abstraction.representative_of_none _ d₁ hn] at hs
  refine ⟨hs, h.right, ?_, ?_, ?_, h.casts, h.guard, h.initialized, h.code.trans (congrArg _ ?_)⟩
  · rw [hlen]
    exact injOn_succ h.injective fun x hx hσ => hother x hx (hσ ▸ hr)
  · intro x hx
    rw [hlen] at hx
    rcases Nat.lt_succ_iff_lt_or_eq.1 hx with hx | rfl
    · exact (h.types x hx).trans (typeOf?_assignNew_of_lt hx f.type (.staticField f)).symm
    · have hrt : d₂.typeOf? (σ d₁.declared.length) = some f.type :=
        ht ▸ (h.right.representative _ hr).1
      exact hrt.trans (typeOf?_assignNew d₁ f.type (.staticField f)).symm
  · intro x hx
    rw [hlen] at hx
    rcases Nat.lt_succ_iff_lt_or_eq.1 hx with hx | rfl
    · refine ⟨fun hr' => ?_, fun hr' => absurd hr' (hother x hx)⟩
      exact absurd (Option.some.inj hr') (Nat.ne_of_gt hx)
    · exact ⟨fun _ => hr, fun _ => rfl⟩
  · have htraffic : (Abstraction.shared f).isTraffic d₁.representative
        (.assign (.var d₁.declared.length) (.staticField f)) = true := by
      simp [Abstraction.isTraffic, Instruction.accesses]
    refine Eq.symm ((trimmed_assignNew (.shared f) d₁ f.type (.staticField f)).trans ?_)
    rw [htraffic, if_pos rfl, List.append_nil]

theorem representative (h : Alike f g σ d₁ d₂) (ht : f.type = .object) :
    ∃ σ', Extends σ σ' d₁ ((Abstraction.shared f).representative d₁).1 ∧
      σ' ((Abstraction.shared f).representative d₁).2 = (Abstraction.perUnit.representative d₂).2 ∧
      Alike f g σ' ((Abstraction.shared f).representative d₁).1
        (Abstraction.perUnit.representative d₂).1 := by
  obtain ⟨hp, hr₂⟩ := Abstraction.perUnit.representative_prepares g d₂
  rcases hd₁ : d₁.representative with _ | r
  · -- The place of the body may have its variable before the shared field is loaded.
    have h₂ : Alike f g σ d₁ (Abstraction.perUnit.representative d₂).1 := by
      rcases hd₂ : d₂.representative with _ | r
      · have hs := hp.sound h.right
        rw [Abstraction.representative_of_none _ d₂ hd₂] at hs ⊢
        exact h.slot hd₂ hs
      · rw [Abstraction.representative_of_some _ d₂ hd₂]
        exact h
    obtain ⟨σ', hσ, hnew, h'⟩ := h₂.extend (Abstraction.perUnit.representative d₂).2
    rw [Abstraction.representative_of_none _ d₁ hd₁]
    have hle := (Abstraction.newRepresentative_grows d₁ f.type (.staticField f) hd₁).length_le
    exact ⟨σ', ⟨hle, hσ⟩, hnew, h'.load ht hd₁ (hnew.symm ▸ hr₂)⟩
  · rw [Abstraction.representative_of_some _ d₁ hd₁,
      Abstraction.representative_of_some _ d₂ (h.representative_right hd₁)]
    exact ⟨σ, .refl σ d₁, rfl, h⟩

theorem lookup_map_snd {α β γ : Type} [BEq α] (m : β → γ) (k : α) :
    ∀ l : List (α × β), (l.map fun p => (p.1, m p.2)).lookup k = (l.lookup k).map m
  | [] => rfl
  | (k', v) :: l => by
    rw [List.map_cons, List.lookup_cons, List.lookup_cons, lookup_map_snd m k l]
    cases k == k' <;> rfl

theorem castTo (h : Alike f g σ d₁ d₂) {r : VarId} (hr : d₁.representative = some r)
    (t : ValueType) :
    ∃ σ', Extends σ σ' d₁ (d₁.castTo r t).1 ∧
      σ' (d₁.castTo r t).2 = (d₂.castTo (σ r) t).2 ∧
      Alike f g σ' (d₁.castTo r t).1 (d₂.castTo (σ r) t).1 := by
  have hlt := (h.left.representative r hr).lt
  have hs₁ := (castTo_prepares (a := .shared f) g hr t).1.sound h.left
  have hs₂ := (castTo_prepares (a := .perUnit) g (h.representative_right hr) t).1.sound h.right
  have hlookup : d₂.casts.lookup t = (d₁.casts.lookup t).map σ := by
    rw [h.casts, lookup_map_snd]
  by_cases ht : d₁.typeOf? r = some t
  · simp only [Draft.castTo, h.types r hlt, ht, if_true]
    exact ⟨σ, .refl σ d₁, rfl, h⟩
  rcases hc : d₁.casts.lookup t with _ | y
  · simp only [Draft.castTo, h.types r hlt, ht, if_false, hlookup, hc, Option.map_none]
      at hs₁ hs₂ ⊢
    obtain ⟨σ', hext, hnew, h'⟩ := h.assignNew t (e := .cast (.var r) t) (by simp) (by
      intro x hx
      rw [List.mem_singleton.1 hx]
      exact hlt)
    refine ⟨σ', ⟨hext.length_le, hext.eqOn⟩, hnew, hs₁, hs₂, h'.injective, h'.types,
      h'.representatives, ?_, h'.guard, h'.initialized, h'.code⟩
    have hcasts : d₂.casts = d₁.casts.map fun p => (p.1, σ' p.2) := h'.casts
    show d₂.casts ++ [(t, _)] = (d₁.casts ++ [(t, _)]).map _
    rw [List.map_append, ← hcasts, List.map_singleton, hnew]
    rfl
  · simp only [Draft.castTo, h.types r hlt, ht, if_false, hlookup, hc, Option.map_some]
    exact ⟨σ, .refl σ d₁, rfl, h⟩

theorem representativeAs (h : Alike f g σ d₁ d₂) (hf : f.type = .object) (t : ValueType) :
    ∃ σ', Extends σ σ' d₁ ((Abstraction.shared f).representativeAs d₁ t).1 ∧
      σ' ((Abstraction.shared f).representativeAs d₁ t).2 =
        (Abstraction.perUnit.representativeAs d₂ t).2 ∧
      Alike f g σ' ((Abstraction.shared f).representativeAs d₁ t).1
        (Abstraction.perUnit.representativeAs d₂ t).1 := by
  obtain ⟨σ₁, hext₁, hnew₁, h₁⟩ := h.representative hf
  have hr := ((Abstraction.shared f).representative_prepares g d₁).2
  obtain ⟨σ₂, hext₂, hnew₂, h₂⟩ := h₁.castTo hr t
  rw [hnew₁] at hnew₂ h₂
  exact ⟨σ₂, hext₁.trans hext₂, hnew₂, h₂⟩

theorem valueOf (h : Alike f g σ d₁ d₂) (hf : f.type = .object) (t : ValueType) :
    ∃ σ', Extends σ σ' d₁ ((Abstraction.shared f).valueOf d₁ t).1 ∧
      ((Abstraction.shared f).valueOf d₁ t).2.mapVars σ' = (Abstraction.perUnit.valueOf d₂ t).2 ∧
      Alike f g σ' ((Abstraction.shared f).valueOf d₁ t).1
        (Abstraction.perUnit.valueOf d₂ t).1 := by
  cases t with
  | primitive p => exact ⟨σ, .refl σ d₁, rfl, h⟩
  | reference _ | array _ _ =>
    obtain ⟨σ', hext, hnew, h'⟩ := h.representativeAs hf _
    exact ⟨σ', hext, congrArg Operand.var hnew, h'⟩

theorem arguments (h : Alike f g σ d₁ d₂) (hf : f.type = .object) (ts : List ValueType) :
    ∃ σ', Extends σ σ' d₁ ((Abstraction.shared f).arguments d₁ ts).1 ∧
      ((Abstraction.shared f).arguments d₁ ts).2.map (Operand.mapVars σ') =
        (Abstraction.perUnit.arguments d₂ ts).2 ∧
      Alike f g σ' ((Abstraction.shared f).arguments d₁ ts).1
        (Abstraction.perUnit.arguments d₂ ts).1 := by
  induction ts generalizing σ d₁ d₂ with
  | nil => exact ⟨σ, .refl σ d₁, rfl, h⟩
  | cons t ts ih =>
    obtain ⟨σ₁, hext₁, hv, h₁⟩ := h.valueOf hf t
    obtain ⟨σ₂, hext₂, hvs, h₂⟩ := ih h₁
    refine ⟨σ₂, hext₁.trans hext₂, ?_, h₂⟩
    have hlt := h₁.left.lt_of_supplies ((Abstraction.shared f).valueOf_prepares g d₁ t).2
    have hv₂ : ((Abstraction.shared f).valueOf d₁ t).2.mapVars σ₂ =
        (Abstraction.perUnit.valueOf d₂ t).2 :=
      (Operand.mapVars_congr fun x hx => hext₂.eqOn x (hlt x hx)).trans hv
    exact congrArg₂ List.cons hv₂ hvs

/-! ### Steps -/

theorem construct (h : Alike f g σ d₁ d₂) (hf : f.type = .object) {x : VarId}
    (hx : x < d₁.declared.length) (m : MethodRef) :
    ∃ σ', Extends σ σ' d₁ ((Abstraction.shared f).construct d₁ x m) ∧
      Alike f g σ' ((Abstraction.shared f).construct d₁ x m)
        (Abstraction.perUnit.construct d₂ (σ x) m) := by
  obtain ⟨σ', hext, hargs, h'⟩ := h.arguments hf m.params
  have hsup := ((Abstraction.shared f).arguments_prepares g d₁ m.params).2
  refine ⟨σ', ⟨hext.length_le, hext.eqOn⟩, ?_⟩
  have hpush := h'.push id (i := .invoke ⟨.special, m, some x,
    ((Abstraction.shared f).arguments d₁ m.params).2⟩) rfl rfl (by
      intro y hy
      rcases List.mem_cons.1 (hy : y ∈ x :: _) with rfl | hy
      · exact Nat.lt_of_lt_of_le hx hext.length_le
      · exact h'.left.lt_of_supplied hsup y hy)
  unfold Abstraction.construct
  simp only
  rw [← hargs, ← hext.eqOn x hx]
  exact hpush

theorem invocation (h : Alike f g σ d₁ d₂) (hf : f.type = .object) (c : Call) :
    ∃ σ', Extends σ σ' d₁ ((Abstraction.shared f).invocation d₁ c).1 ∧
      ((Abstraction.shared f).invocation d₁ c).2.mapVars σ' =
        (Abstraction.perUnit.invocation d₂ c).2 ∧
      Alike f g σ' ((Abstraction.shared f).invocation d₁ c).1
        (Abstraction.perUnit.invocation d₂ c).1 := by
  obtain ⟨σ₁, hext₁, hargs, h₁⟩ := h.arguments hf c.callee.params
  have hsup := ((Abstraction.shared f).arguments_prepares g d₁ c.callee.params).2
  unfold Abstraction.invocation
  simp only
  by_cases hc : c.dispatch = .static
  · rw [if_pos hc, if_pos hc]
    exact ⟨σ₁, hext₁, by rw [← hargs]; rfl, h₁⟩
  · rw [if_neg hc, if_neg hc]
    obtain ⟨σ₂, hext₂, hr, h₂⟩ := h₁.representativeAs hf
      (c.receiver.getD (.reference c.callee.className))
    have hlt := h₁.left.lt_of_supplied hsup
    have hargs₂ := Operand.map_mapVars_congr fun x hx => hext₂.eqOn x (hlt x hx)
    refine ⟨σ₂, hext₁.trans hext₂, ?_, h₂⟩
    rw [← hr, ← hargs, ← hargs₂]
    rfl

theorem guardVar (h : Alike f g σ d₁ d₂) (hg : f ≠ g) :
    ∃ σ', Extends σ σ' d₁ (d₁.guardVar g).1 ∧ σ' (d₁.guardVar g).2 = (d₂.guardVar g).2 ∧
      Alike f g σ' (d₁.guardVar g).1 (d₂.guardVar g).1 := by
  have hs₁ := (guardVar_spec (.shared f) g d₁).2.2.2.2 h.left
  have hs₂ := (guardVar_spec .perUnit g d₂).2.2.2.2 h.right
  rcases hd : d₁.guard with _ | y
  · simp only [Draft.guardVar, h.guard, hd, Option.map_none] at hs₁ hs₂ ⊢
    obtain ⟨σ', hext, hnew, h'⟩ := h.assignNew g.type (e := .staticField g)
      (by simpa using hg.symm) (by simp [Expr.vars])
    refine ⟨σ', ⟨hext.length_le, hext.eqOn⟩, hnew, hs₁, hs₂, h'.injective, h'.types,
      h'.representatives, h'.casts, ?_, h'.initialized, h'.code⟩
    exact congrArg some hnew.symm
  · simp only [Draft.guardVar, h.guard, hd, Option.map_some]
    exact ⟨σ, .refl σ d₁, rfl, h⟩

theorem callInitializer (h : Alike f g σ d₁ d₂) (c : String) (m : MethodRef) :
    Alike f g σ (d₁.callInitializer c m) (d₂.callInitializer c m) := by
  have hs₁ := (callInitializer_spec (.shared f) g d₁ c m).2.2.2 h.left
  have hs₂ := (callInitializer_spec .perUnit g d₂ c m).2.2.2 h.right
  unfold Draft.callInitializer markInitialized at hs₁ hs₂ ⊢
  rw [h.initialized] at hs₂ ⊢
  by_cases hc : c ∈ d₁.initialized
  · simpa only [hc, if_true, Bool.false_eq_true, if_false] using h
  · simp only [hc, if_true, if_false] at hs₁ hs₂ ⊢
    have h' := h.push id (i := .invoke ⟨.static, m, none, []⟩) rfl rfl (by
      simp [Instruction.vars, Invocation.vars])
    exact ⟨hs₁, hs₂, h'.injective, h'.types, h'.representatives, h'.casts, h'.guard, rfl, h'.code⟩

theorem pushInvoke (h : Alike f g σ d₁ d₂) {i : Invocation}
    (hi : ∀ x ∈ i.vars, x < d₁.declared.length) :
    Alike f g σ (d₁.push (.invoke i)) (d₂.push (.invoke (i.mapVars σ))) :=
  h.push id (i := .invoke i) rfl rfl hi

theorem emit_create (h : Alike f g σ d₁ d₂) (hf : f.type = .object) (m : MethodRef) (c : String)
    (init : Option MethodRef) :
    ∃ σ', (∀ x < d₁.declared.length, σ' x = σ x) ∧
      Alike f g σ' ((Step.create m c init).emit (.shared f) g d₁)
        ((Step.create m c init).emit .perUnit g d₂) := by
  obtain ⟨σ₁, hext₁, hnew, h₁⟩ := h.assignNew (.reference c) (e := .new c) (by simp)
    (by simp [Expr.vars])
  let x := (d₁.assignNew (.reference c) (.new c)).2
  have hx : x < (d₁.assignNew (.reference c) (.new c)).1.declared.length := lt_assignNew _ _ _
  obtain ⟨σ₂, hext₂, h₂⟩ := h₁.construct hf hx m
  have hσ : σ₂ x = (d₂.assignNew (.reference c) (.new c)).2 := (hext₂.eqOn x hx).trans hnew
  rw [hnew] at h₂
  refine ⟨σ₂, (hext₁.trans hext₂).eqOn, ?_⟩
  have hx₂ := Nat.lt_of_lt_of_le hx hext₂.length_le
  cases init with
  | none =>
    have h₃ := h₂.store hx₂
    rw [hσ] at h₃
    exact h₃
  | some k =>
    have hgrow := (callInitializer_spec (.shared f) g
      ((Abstraction.shared f).construct (d₁.assignNew (.reference c) (.new c)).1 x m) c k).1
    have h₃ := (h₂.callInitializer c k).store (Nat.lt_of_lt_of_le hx₂ hgrow.length_le)
    rw [hσ] at h₃
    exact h₃

/-- A new variable whose value is kept. -/
theorem assignKept (h : Alike f g σ d₁ d₂) (t : ValueType) {e : Expr} (hf : e ≠ .staticField f)
    (he : ∀ x ∈ e.vars, x < d₁.declared.length) :
    ∃ σ', (∀ x < d₁.declared.length, σ' x = σ x) ∧
      Alike f g σ' ((Abstraction.shared f).store (d₁.assignNew t e).1 (d₁.assignNew t e).2)
        (Abstraction.perUnit.store (d₂.assignNew t (e.mapVars σ)).1
          (d₂.assignNew t (e.mapVars σ)).2) := by
  obtain ⟨σ', hext, hnew, h'⟩ := h.assignNew t hf he
  refine ⟨σ', hext.eqOn, ?_⟩
  rw [← hnew]
  exact h'.store (lt_assignNew _ _ _)

theorem emit_result (h : Alike f g σ d₁ d₂) (hf : f.type = .object) (c : Call) :
    ∃ σ', (∀ x < d₁.declared.length, σ' x = σ x) ∧
      Alike f g σ' ((Step.result c).emit (.shared f) g d₁)
        ((Step.result c).emit .perUnit g d₂) := by
  obtain ⟨σ₁, hext, hinv, h₁⟩ := h.invocation hf c
  have hlt := h₁.left.lt_of_makes (invocation_spec (.shared f) g d₁ c).2
  have hdrop : ∃ σ', (∀ x < d₁.declared.length, σ' x = σ x) ∧
      Alike f g σ'
        (((Abstraction.shared f).invocation d₁ c).1.push
          (.invoke ((Abstraction.shared f).invocation d₁ c).2))
        ((Abstraction.perUnit.invocation d₂ c).1.push
          (.invoke (Abstraction.perUnit.invocation d₂ c).2)) := by
    rw [← hinv]
    exact ⟨σ₁, hext.eqOn, h₁.pushInvoke hlt⟩
  unfold Step.emit
  simp only
  rcases c.callee.result with _ | t
  · exact hdrop
  · by_cases ht : t.isReferenceLike
    · simp only [ht, if_true]
      obtain ⟨σ₂, hσ, h₂⟩ := h₁.assignKept t (e := .invoke _) (by simp) hlt
      refine ⟨σ₂, fun x hx => ?_, ?_⟩
      · rw [hσ x (Nat.lt_of_lt_of_le hx hext.length_le), hext.eqOn x hx]
      · rw [← hinv]
        exact h₂
    · simp only [ht]
      exact hdrop

theorem pushGuarded (h : Alike f g σ d₁ d₂) (hg : f ≠ g) {x : VarId}
    (hx : x < d₁.declared.length) :
    ∃ σ', (∀ y < d₁.declared.length, σ' y = σ y) ∧
      Alike f g σ' (d₁.pushGuarded g (.throw (.var x)))
        (d₂.pushGuarded g (.throw (.var (σ x)))) := by
  obtain ⟨σ', hext, hy, h₁⟩ := h.guardVar hg
  have hyl : (d₁.guardVar g).2 < (d₁.guardVar g).1.declared.length :=
    Body.lt_of_typeOf? (b := Draft.body _) (h₁.left.guard _ (guardVar_spec (.shared f) g d₁).2.1).1
  -- The branches go to different positions: behind the throw in each draft.
  have h₂ := h₁.push (fun _ => (d₂.guardVar g).1.code.length + 2)
    (i := .branch (.var (d₁.guardVar g).2) ((d₁.guardVar g).1.code.length + 2)) rfl rfl (by
      intro z hz
      rw [List.mem_singleton.1 hz]
      exact hyl)
  have h₃ := h₂.push id (i := .throw (.var x)) rfl rfl (by
    intro z hz
    rw [List.mem_singleton.1 hz]
    exact Nat.lt_of_lt_of_le hx hext.length_le)
  have h₄ := h₃.push id (i := .nop) rfl rfl (by simp [Instruction.vars])
  refine ⟨σ', hext.eqOn, ?_⟩
  simp only [Instruction.mapVars, Operand.mapVars, Instruction.mapTarget, hy, hext.eqOn x hx] at h₄
  exact h₄

theorem emit_ret (h : Alike f g σ d₁ d₂) (hf : f.type = .object) (t : ResultType) :
    ∃ σ', (∀ x < d₁.declared.length, σ' x = σ x) ∧
      Alike f g σ' ((Step.ret t).emit (.shared f) g d₁) ((Step.ret t).emit .perUnit g d₂) := by
  cases t with
  | void =>
    exact ⟨σ, fun _ _ => rfl, h.push id (i := .ret none) rfl rfl (by simp [Instruction.vars])⟩
  | value t =>
    obtain ⟨σ', hext, hv, h'⟩ := h.valueOf hf t
    have hlt := h'.left.lt_of_supplies ((Abstraction.shared f).valueOf_prepares g d₁ t).2
    refine ⟨σ', hext.eqOn, ?_⟩
    unfold Step.emit
    simp only
    rw [← hv]
    exact h'.push id (i := .ret (some _)) rfl rfl hlt

/-- Writing a step keeps drafts alike, if the incoming variables, those of `d₀`, have the same
numbers in both. -/
theorem emit (h : Alike f g σ d₁ d₂) (hf : f.type = .object) (hg : f ≠ g) {d₀ : Draft}
    (h₀ : Extends id σ d₀ d₁) {s : Step} (hs : s.Within d₀) :
    ∃ σ', Extends σ σ' d₁ (s.emit (.shared f) g d₁) ∧
      Alike f g σ' (s.emit (.shared f) g d₁) (s.emit .perUnit g d₂) := by
  suffices h' : ∃ σ', (∀ x < d₁.declared.length, σ' x = σ x) ∧
      Alike f g σ' (s.emit (.shared f) g d₁) (s.emit .perUnit g d₂) by
    obtain ⟨σ', hσ, h'⟩ := h'
    exact ⟨σ', ⟨(emit_spec s).grows.length_le, hσ⟩, h'⟩
  cases s with
  | superCall m =>
    obtain ⟨σ', hext, h'⟩ := h.construct hf (Nat.lt_of_lt_of_le hs h₀.length_le) m
    rw [h₀.eqOn 0 hs] at h'
    exact ⟨σ', hext.eqOn, h'⟩
  | keep x =>
    have h' := h.store (Nat.lt_of_lt_of_le hs h₀.length_le)
    rw [h₀.eqOn x hs] at h'
    exact ⟨σ, fun _ _ => rfl, h'⟩
  | create m c init => exact h.emit_create hf m c init
  | createArray t =>
    have hmap : t.arrayAllocation.mapVars σ = t.arrayAllocation := by
      simp [ValueType.arrayAllocation, Expr.mapVars, Operand.mapVars]
    have h' := h.assignKept t (e := t.arrayAllocation) (by simp [ValueType.arrayAllocation])
      (by simp [ValueType.arrayAllocation, Expr.vars, Operand.vars])
    rw [hmap] at h'
    exact h'
  | runInitializer c m => exact ⟨σ, fun _ _ => rfl, h.callInitializer c m⟩
  | statement c =>
    obtain ⟨σ', hext, hinv, h'⟩ := h.invocation hf c
    have h'' := h'.pushInvoke (h'.left.lt_of_makes (invocation_spec (.shared f) g d₁ c).2)
    rw [hinv] at h''
    exact ⟨σ', hext.eqOn, h''⟩
  | result c => exact h.emit_result hf c
  | mayThrow t =>
    obtain ⟨σ₁, hext, hx, h₁⟩ := h.representativeAs hf t
    have hxl := h₁.left.lt_of_offers ((Abstraction.shared f).representativeAs_prepares g d₁ t).2
    obtain ⟨σ₂, hσ, h₂⟩ := h₁.pushGuarded hg hxl
    rw [hx] at h₂
    refine ⟨σ₂, fun y hy => ?_, h₂⟩
    rw [hσ y (Nat.lt_of_lt_of_le hy hext.length_le), hext.eqOn y hy]
  | ret t => exact h.emit_ret hf t

/-- Writing steps keeps drafts alike. -/
theorem run (h : Alike f g σ d₁ d₂) (hf : f.type = .object) (hg : f ≠ g) {d₀ : Draft}
    (h₀ : Extends id σ d₀ d₁) {steps : List Step} (hs : ∀ s ∈ steps, s.Within d₀) :
    ∃ σ', Alike f g σ' (steps.foldl (Step.emit (.shared f) g) d₁)
      (steps.foldl (Step.emit .perUnit g) d₂) := by
  induction steps generalizing σ d₁ d₂ with
  | nil => exact ⟨σ, h⟩
  | cons s steps ih =>
    obtain ⟨σ', hext, h'⟩ := h.emit hf hg h₀ (hs s List.mem_cons_self)
    exact ih h' (h₀.trans hext) fun s' hs' => hs s' (List.mem_cons_of_mem _ hs')

/-- Drafts that have only bound their incoming values are the same. -/
theorem start (f g : FieldRef) (s : Subject) : Alike f g id (Draft.start s) (Draft.start s) := by
  have hrun : ∀ (vs : List (Incoming × ValueType)) (d : Draft),
      (vs.foldl receive d).representative = d.representative ∧
        (vs.foldl receive d).casts = d.casts ∧ (vs.foldl receive d).guard = d.guard := by
    intro vs
    induction vs with
    | nil => exact fun d => ⟨rfl, rfl, rfl⟩
    | cons v vs ih => exact fun d => ih (d.receive v)
  obtain ⟨hrep, hcasts, hguard⟩ := hrun s.arrivals Draft.empty
  obtain ⟨_, hcode, _, hs₁⟩ := receive_run (.shared f) g s.arrivals Draft.empty
  obtain ⟨_, _, _, hs₂⟩ := receive_run .perUnit g s.arrivals Draft.empty
  rw [← start_eq] at hrep hcasts hguard hcode hs₁ hs₂
  have hkept : ∀ (a : Abstraction) i, i ∈ (Draft.start s).code → a.isTraffic none i = false := by
    intro a i hi
    obtain ⟨x, source, rfl⟩ := Subject.eq_bind_of_mem_bindings (hcode ▸ hi)
    cases a <;> rfl
  have htrim : ∀ a, (Draft.start s).trimmed a = (Draft.start s).code.map Instruction.bare := by
    intro a
    have hr : (Draft.start s).representative = none := hrep
    rw [trimmed, hr, List.filter_eq_self.2 fun i hi => by rw [hkept a i hi]; rfl]
  refine ⟨hs₁ (sound_empty _ _), hs₂ (sound_empty _ _), Function.injective_id.injOn, fun _ _ => rfl,
    fun _ _ => Iff.rfl, ?_, ?_, rfl, ?_⟩
  · rw [hcasts]
    rfl
  · rw [hguard]
    rfl
  · rw [htrim, htrim]
    refine (List.map_id _).symm.trans (List.map_congr_left fun i hi => ?_)
    obtain ⟨j, hj, rfl⟩ := List.mem_map.1 hi
    obtain ⟨x, source, rfl⟩ := Subject.eq_bind_of_mem_bindings (hcode ▸ hj)
    rfl

end Alike

end Draft

end Standin
