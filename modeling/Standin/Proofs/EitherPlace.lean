import Standin.Proofs.Alike
import Standin.Proofs.Order

/-!
# Either place

The stand-ins for a shared field and for a place of the body are made from the same effects or fail
with the same error. Without what goes through the place (`Abstraction.stripped`), their code is the
same but for the numbers of variables (`Body.Counterparts`, `standIn_eitherPlace`).
-/

namespace Standin

open Draft

/-! ## Straight code -/

namespace Straight

variable {code code' : List Instruction} {v w : Option Operand}

/-- The targets of straight code are known from the other parts of its instructions. -/
theorem eq_of_bare {pos : Nat} (h : Straight pos code) (h' : Straight pos code')
    (hb : code.map Instruction.bare = code'.map Instruction.bare) : code = code' := by
  have hbare : ∀ {i : Instruction}, i.fallsThrough → i.bare = i := fun hi =>
    Instruction.mapTarget_of_fallsThrough _ hi
  induction h generalizing code' with
  | nil => exact (List.map_eq_nil_iff.1 hb.symm).symm
  | @cons pos i code hi _ ih =>
    cases h' with
    | nil => cases hb
    | @cons _ j _ hj hrest =>
      obtain ⟨hij, hb⟩ := List.cons.inj hb
      rw [hbare hi, hbare hj] at hij
      rw [hij, ih hrest hb]
    | guarded =>
      rw [← hbare hi, (List.cons.inj hb).1] at hi
      cases hi
  | @guarded pos c v code _ ih =>
    cases h' with
    | nil => cases hb
    | @cons _ j _ hj =>
      rw [← hbare hj, ← (List.cons.inj hb).1] at hj
      cases hj
    | guarded hrest =>
      obtain ⟨hc, hrest'⟩ := List.cons.inj hb
      obtain ⟨hv, hcode⟩ := List.cons.inj hrest'
      cases hc
      cases hv
      rw [ih hrest hcode]

theorem eq_of_bare_ending (h : Straight 0 code) (h' : Straight 0 code')
    (hb : (code ++ [Instruction.ret v]).map Instruction.bare =
      (code' ++ [Instruction.ret w]).map Instruction.bare) :
    code ++ [.ret v] = code' ++ [.ret w] := by
  rw [List.map_append, List.map_append] at hb
  obtain ⟨hcode, hret⟩ := List.append_inj' hb rfl
  cases hret
  rw [h.eq_of_bare h' hcode]

theorem without {q : Instruction → Bool} (h : Straight 0 code)
    (hq : ∀ i, q i → i.fallsThrough) :
    ∃ kept, Standin.without q (code ++ [.ret v]) = kept ++ [.ret v] ∧ Straight 0 kept := by
  have hret : q (.ret v) = false := by
    by_contra hc
    cases hq _ (by simpa using hc)
  have hmove : ∀ t ≤ code.length,
      keptBefore q (code ++ [.ret v]) t = keptBefore q code t := by
    intro t ht
    rw [keptBefore, keptBefore, List.take_append_of_le_length ht]
  refine ⟨_, ?_, h.thin [] hq hmove⟩
  rw [Standin.without, List.filter_append, List.map_append,
    List.filter_cons_of_pos (by simp [hret])]
  rfl

end Straight

/-! ## Bodies without their place -/

/-- The variables that stand in some code. -/
def mentioned (code : List Instruction) : Set VarId :=
  {x | ∃ i ∈ code, x ∈ i.vars}

theorem mentioned_map_bare (code : List Instruction) :
    mentioned (code.map Instruction.bare) = mentioned code := by
  ext x
  simp [mentioned]

theorem mentioned_map_mapVars (σ : VarId → VarId) (code : List Instruction) :
    mentioned (code.map (Instruction.mapVars σ)) = σ '' mentioned code := by
  ext y
  simp only [mentioned, List.mem_map, Set.mem_ofPred_eq, Set.mem_image]
  constructor
  · rintro ⟨_, ⟨i, hi, rfl⟩, hy⟩
    rw [Instruction.vars_mapVars] at hy
    obtain ⟨x, hx, rfl⟩ := List.mem_map.1 hy
    exact ⟨x, ⟨i, hi, hx⟩, rfl⟩
  · rintro ⟨x, ⟨i, hi, hx⟩, rfl⟩
    refine ⟨_, ⟨i, hi, rfl⟩, ?_⟩
    rw [Instruction.vars_mapVars]
    exact List.mem_map_of_mem hx

namespace Abstraction

/-- The variable that the instruction gives an object of the place. -/
def taken? : Abstraction → Instruction → Option VarId
  | shared f, .assign (.var x) (.staticField f') => if f' = f then some x else none
  | perUnit, .assign (.var x) (.use _) => some x
  | _, _ => none

/-- The variable of a stand-in that stands for all objects. -/
def representative? (a : Abstraction) (b : Body) : Option VarId :=
  b.code.findSome? a.taken?

/-- The code of a stand-in but for what goes through the place. -/
def stripped (a : Abstraction) (b : Body) : List Instruction :=
  without (a.isTraffic (a.representative? b)) b.code

variable {a : Abstraction} {r : Option VarId} {i : Instruction}

theorem taken?_mapTarget (m : Nat → Nat) (i : Instruction) :
    a.taken? (i.mapTarget m) = a.taken? i := by
  cases a <;> cases i <;> rfl

theorem taken?_mapVars (σ : VarId → VarId) (i : Instruction) :
    a.taken? (i.mapVars σ) = (a.taken? i).map σ := by
  cases i with
  | assign dest e =>
    cases dest with
    | var x =>
      cases a with
      | shared f =>
        cases e with
        | staticField f' => by_cases hf : f' = f <;> simp [taken?, Instruction.mapVars,
            Place.mapVars, Expr.mapVars, hf]
        | _ => rfl
      | perUnit => cases e <;> rfl
    | _ => cases a <;> rfl
  | _ => cases a <;> rfl

theorem taken?_eq_some {x : VarId} (h : a.taken? i = some x) :
    (∃ f, a = shared f ∧ i = .assign (.var x) (.staticField f)) ∨
      a = perUnit ∧ ∃ v, i = .assign (.var x) (.use v) := by
  unfold taken? at h
  split at h
  · next f y f' =>
    by_cases hf : f' = f
    · rw [if_pos hf] at h
      cases h
      exact .inl ⟨f, rfl, by rw [hf]⟩
    · rw [if_neg hf] at h
      cases h
  · cases h
    exact .inr ⟨rfl, _, rfl⟩
  · cases h

theorem fallsThrough_of_isTraffic (h : a.isTraffic r i) : i.fallsThrough := by
  cases i with
  | bind | assign | invoke | nop => rfl
  | throw | branch | goto | ret => cases a <;> cases h

/-- A renumbering that tells the variable for all objects from the one that is written keeps what
goes through the place. -/
theorem isTraffic_mapVars {σ : VarId → VarId}
    (h : ∀ x y, i.written? = some x → r = some y → σ y = σ x → y = x) :
    a.isTraffic (r.map σ) (i.mapVars σ) = a.isTraffic r i := by
  cases a with
  | shared f => exact Instruction.accesses_mapVars i
  | perUnit =>
    simp only [isTraffic, Instruction.written?_mapVars]
    rcases hw : i.written? with _ | x
    · rfl
    rcases r with _ | y
    · simp
    · by_cases hy : y = x
      · simp [hy]
      · have hσ : σ y ≠ σ x := fun hσ => hy (h x y hw rfl hσ)
        simp [hy, hσ]

theorem representative?_tidy (a : Abstraction) (b : Body) :
    a.representative? b.tidy = (a.representative? b).map b.renumbering := by
  have hcode : b.tidy.code.filterMap a.taken? =
      (b.code.filterMap a.taken?).map b.renumbering := by
    rw [Body.filterMap_code_tidy b _ (by cases a <;> rfl) fun m i => taken?_mapTarget m i,
      List.map_filterMap]
    exact List.filterMap_congr fun i _ => taken?_mapVars _ i
  rw [representative?, representative?, ← List.head?_filterMap, ← List.head?_filterMap, hcode,
    List.head?_map]

end Abstraction

/-- The code of a draft as tidying leaves it, but for what goes through the place. -/
def Draft.outline (a : Abstraction) (d : Draft) : List Instruction :=
  (d.trimmed a).filter fun i => !i.isNop

theorem Draft.Alike.outline {f g : FieldRef} {σ : VarId → VarId} {d₁ d₂ : Draft}
    (h : Alike f g σ d₁ d₂) :
    d₂.outline .perUnit = (d₁.outline (.shared f)).map (Instruction.mapVars σ) := by
  rw [Draft.outline, h.code, List.filter_map]
  refine congrArg _ (List.filter_congr fun i _ => ?_)
  cases i <;> rfl

namespace Drafted

variable {o : Options} {p : Program} {s : Subject} {e : Effects}
  {supers exceptions : List MethodRef} {d : Draft} {code : List Instruction}

/-- Only the variable for all objects is given an object of the place. -/
theorem representative_of_taken (h : Drafted o p s e supers exceptions d code)
    (hg : ∀ f, o.abstraction = .shared f → f ≠ o.guard) {i : Instruction} {x : VarId}
    (hi : i ∈ d.code) (hx : o.abstraction.taken? i = some x) : d.representative = some x := by
  rw [h.code_eq, List.mem_append] at hi
  rcases hi with hi | hi
  · obtain ⟨y, source, rfl⟩ := Subject.eq_bind_of_mem_bindings hi
    rcases Abstraction.taken?_eq_some hx with ⟨f, _, hf⟩ | ⟨_, v, hv⟩
    · cases hf
    · cases hv
  obtain ⟨_, _, _, b, hb, hib, _⟩ := h.blocks.exists_of_mem hi
  have horigin := hb.origin?_of_mem hib
  rcases Abstraction.taken?_eq_some hx with ⟨f, ha, rfl⟩ | ⟨ha, v, rfl⟩
  · rcases horigin with ho | hp | ⟨y, hk⟩ | ⟨y, _, hy⟩ | ⟨y, e', t, k, he, hm, _⟩
    · cases ho
    · cases hp with
      | load _ hr => exact hr
    · rw [ha] at hk
      cases hk
    · cases hy
      exact absurd rfl (hg _ ha)
    · cases he
      cases hm
  · rcases horigin with ho | hp | ⟨y, hk⟩ | ⟨y, _, hy⟩ | ⟨y, e', t, k, he, hm, _⟩
    · cases ho
    · cases hp with
      | null _ hr => exact hr
    · rw [ha] at hk
      obtain ⟨r, hr, hk⟩ := hk
      cases hk
      exact hr
    · cases hy
    · cases he
      cases hm

theorem taken_of_representative (h : Drafted o p s e supers exceptions d code) {r : VarId}
    (hr : d.representative = some r) : ∃ i ∈ d.code, o.abstraction.taken? i = some r := by
  have hrep := h.sound.representative r hr
  cases ha : o.abstraction with
  | shared f =>
    rw [ha] at hrep
    have hmem : Origin.value (.staticField f) ∈ d.body.origins r := by simp [hrep.2]
    exact ⟨_, Body.assign_mem_of_origins hmem, by simp [Abstraction.taken?]⟩
  | perUnit =>
    rw [ha] at hrep
    obtain ⟨_, origin, xs, ho, hnull⟩ := hrep
    have hmem : origin ∈ d.body.origins r := by simp [ho]
    rcases hnull with rfl | ⟨x, rfl⟩
    · exact ⟨_, Body.assign_mem_of_origins hmem, rfl⟩
    · exact ⟨_, Body.assign_mem_of_origins hmem, rfl⟩

theorem representative?_tidy (h : Drafted o p s e supers exceptions d code)
    (hg : ∀ f, o.abstraction = .shared f → f ≠ o.guard) :
    o.abstraction.representative? d.body.tidy = d.representative.map d.body.renumbering := by
  have hdraft : o.abstraction.representative? d.body = d.representative := by
    rcases hr : o.abstraction.representative? d.body with _ | x
    · rcases hd : d.representative with _ | r
      · rfl
      · obtain ⟨i, hi, hir⟩ := h.taken_of_representative hd
        rw [List.findSome?_eq_none_iff.1 hr i hi] at hir
        cases hir
    · obtain ⟨i, hi, hix⟩ := List.exists_of_findSome?_eq_some hr
      exact (h.representative_of_taken hg hi hix).symm
  rw [Abstraction.representative?_tidy, hdraft]

theorem stripped_tidy (h : Drafted o p s e supers exceptions d code) :
    ∃ init v, o.abstraction.stripped d.body.tidy = init ++ [.ret v] ∧ Straight 0 init := by
  obtain ⟨init, v, hcode, hinit, _⟩ := h.tidy_code
  obtain ⟨kept, hkept, hs⟩ := hinit.without (v := v)
    fun i (hi : o.abstraction.isTraffic (o.abstraction.representative? d.body.tidy) i) =>
      Abstraction.fallsThrough_of_isTraffic hi
  exact ⟨kept, v, by rw [Abstraction.stripped, hcode, hkept], hs⟩

theorem mem_usedVars_of_representative (h : Drafted o p s e supers exceptions d code) {r : VarId}
    (hr : d.representative = some r) : r ∈ d.body.usedVars :=
  (h.sound.representative r hr).mem_usedVars h.sound.inScope

/-- Up to targets, the stripped code of the tidied body is the renumbered outline of the draft. -/
theorem bare_stripped_tidy (h : Drafted o p s e supers exceptions d code)
    (hg : ∀ f, o.abstraction = .shared f → f ≠ o.guard) :
    (o.abstraction.stripped d.body.tidy).map Instruction.bare =
      (d.outline o.abstraction).map (Instruction.mapVars d.body.renumbering) := by
  obtain ⟨_, _, _, _, hnop⟩ := h.tidy_code
  let ρ := d.body.renumbering
  let q := o.abstraction.isTraffic (d.representative.map ρ)
  have htraffic : ∀ i ∈ d.code,
      q (i.mapVars ρ) = o.abstraction.isTraffic d.representative i := by
    intro i hi
    refine Abstraction.isTraffic_mapVars fun x y hx hy => ?_
    obtain ⟨origin, ho⟩ := Instruction.written?_eq_some.1 hx
    exact Body.renumbering_injective (h.mem_usedVars_of_representative hy)
      (h.sound.inScope.mem_usedVars hi (Instruction.mem_vars_of_origin? ho))
  have hmap := Body.map_code_tidy (fun i => (q i, i.bare)) hnop
    (by intro m i; simp [q])
  have hfilter : ∀ (l : List Instruction) (m : Instruction → Instruction),
      ((l.map fun i => (q (m i), (m i).bare)).filter (!·.1)).map Prod.snd =
        (l.filter fun i => !q (m i)).map fun i => (m i).bare := by
    intro l m
    rw [List.filter_map, List.map_map]
    rfl
  calc (o.abstraction.stripped d.body.tidy).map Instruction.bare
      = (d.body.tidy.code.filter fun i => !q i).map Instruction.bare := by
        rw [Abstraction.stripped, without, h.representative?_tidy hg, List.map_map]
        exact List.map_congr_left fun i _ => Instruction.bare_mapTarget _ i
    _ = ((d.code.filter fun i => !i.isNop).filter fun i => !q (i.mapVars ρ)).map
          fun i => (i.mapVars ρ).bare := by
        exact (hfilter _ id).symm.trans ((congrArg (fun l => (l.filter (!·.1)).map Prod.snd)
          hmap).trans (hfilter _ (Instruction.mapVars ρ)))
    _ = (d.outline o.abstraction).map (Instruction.mapVars ρ) := by
        rw [Draft.outline, Draft.trimmed, List.filter_map, List.map_map, List.filter_filter,
          List.filter_filter]
        have hkept : ∀ i ∈ d.code, (!q (i.mapVars ρ) && !i.isNop) =
            (!i.bare.isNop && !o.abstraction.isTraffic d.representative i) := by
          intro i hi
          rw [htraffic i hi, Bool.and_comm]
          cases i <;> rfl
        rw [List.filter_congr hkept]
        exact List.map_congr_left fun i _ => Instruction.bare_mapVars ρ i

theorem mem_usedVars_of_mentioned (h : Drafted o p s e supers exceptions d code) {x : VarId}
    (hx : x ∈ mentioned (d.outline o.abstraction)) : x ∈ d.body.usedVars := by
  obtain ⟨i, hi, hx⟩ := hx
  obtain ⟨j, hj, rfl⟩ := List.mem_map.1 (List.mem_filter.1 hi).1
  rw [Instruction.vars_bare] at hx
  exact h.sound.inScope.mem_usedVars (List.mem_filter.1 hj).1 hx

theorem mentioned_stripped_tidy (h : Drafted o p s e supers exceptions d code)
    (hg : ∀ f, o.abstraction = .shared f → f ≠ o.guard) :
    mentioned (o.abstraction.stripped d.body.tidy) =
      d.body.renumbering '' mentioned (d.outline o.abstraction) := by
  rw [← mentioned_map_bare, h.bare_stripped_tidy hg, mentioned_map_mapVars]

theorem representative?_tidy_eq_some (h : Drafted o p s e supers exceptions d code)
    (hg : ∀ f, o.abstraction = .shared f → f ≠ o.guard) {x : VarId} (hx : x ∈ d.body.usedVars) :
    o.abstraction.representative? d.body.tidy = some (d.body.renumbering x) ↔
      d.representative = some x := by
  rw [h.representative?_tidy hg, Option.map_eq_some_iff]
  constructor
  · rintro ⟨r, hr, hrx⟩
    rw [← Body.renumbering_injective (h.mem_usedVars_of_representative hr) hx hrx]
    exact hr
  · exact fun hr => ⟨x, hr, rfl⟩

theorem represents_tidy (h : Drafted o p s e supers exceptions d code)
    (hg : ∀ f, o.abstraction = .shared f → f ≠ o.guard) {x : VarId}
    (hx : o.abstraction.representative? d.body.tidy = some x) :
    o.abstraction.Represents d.body.tidy x := by
  rw [h.representative?_tidy hg] at hx
  obtain ⟨r, hr, rfl⟩ := Option.map_eq_some_iff.1 hx
  exact (h.sound.representative r hr).tidy h.sound.inScope

end Drafted

/-! ## Stand-ins -/

/-- The bodies `b₁` of a stand-in for the shared field `f` and `b₂` of one for a place of the body
do the same: without what goes through the place, `φ` takes the code of `b₁` to that of `b₂`. -/
structure Body.Counterparts (f : FieldRef) (φ : VarId → VarId) (b₁ b₂ : Body) : Prop where
  /-- The shared field is loaded once, into the variable that stands for all objects. -/
  left : ∀ r, (Abstraction.shared f).representative? b₁ = some r →
    (Abstraction.shared f).Represents b₁ r
  /-- The place of the body is a variable that gets nothing but what is stored. -/
  right : ∀ r, Abstraction.perUnit.representative? b₂ = some r →
    Abstraction.perUnit.Represents b₂ r
  code : ((Abstraction.shared f).stripped b₁).map (Instruction.mapVars φ) =
    Abstraction.perUnit.stripped b₂
  bijective : Set.BijOn φ (mentioned ((Abstraction.shared f).stripped b₁))
    (mentioned (Abstraction.perUnit.stripped b₂))
  types : ∀ x ∈ mentioned ((Abstraction.shared f).stripped b₁),
    ∃ t, b₁.typeOf? x = some t ∧ b₂.typeOf? (φ x) = some t
  representative : ∀ x ∈ mentioned ((Abstraction.shared f).stripped b₁),
    (Abstraction.shared f).representative? b₁ = some x ↔
      Abstraction.perUnit.representative? b₂ = some (φ x)
  leftPasses : PassesThrows ((Abstraction.shared f).stripped b₁)
  rightPasses : PassesThrows (Abstraction.perUnit.stripped b₂)

/-- A map of the new numbers of variables that follows one of the old numbers. -/
theorem Body.exists_renumbered (b : Body) (m : VarId → VarId) :
    ∃ φ : VarId → VarId, ∀ x ∈ b.usedVars, φ (b.renumbering x) = m x := by
  refine ⟨fun y => m (b.usedVars.getD y 0), fun x hx => congrArg m ?_⟩
  have hl := List.idxOf_lt_length_of_mem hx
  rw [renumbering_of_mem hx, List.getD_eq_getElem?_getD, List.getElem?_eq_getElem hl,
    List.getElem_idxOf hl, Option.getD_some]

namespace Draft.Alike

variable {o : Options} {f : FieldRef} {p : Program} {s : Subject} {e : Effects}
  {supers₁ supers₂ exceptions₁ exceptions₂ : List MethodRef} {σ φ : VarId → VarId}
  {d₁ d₂ : Draft} {code₁ code₂ : List Instruction}

theorem stripped_eq (h : Alike f o.guard σ d₁ d₂) (hf : f ≠ o.guard)
    (h₁ : Drafted { o with abstraction := .shared f } p s e supers₁ exceptions₁ d₁ code₁)
    (h₂ : Drafted { o with abstraction := .perUnit } p s e supers₂ exceptions₂ d₂ code₂)
    (hφ : ∀ x ∈ d₁.body.usedVars, φ (d₁.body.renumbering x) = d₂.body.renumbering (σ x)) :
    ((Abstraction.shared f).stripped d₁.body.tidy).map (Instruction.mapVars φ) =
      Abstraction.perUnit.stripped d₂.body.tidy := by
  have hbare₁ : ((Abstraction.shared f).stripped d₁.body.tidy).map Instruction.bare =
      (d₁.outline (.shared f)).map (Instruction.mapVars d₁.body.renumbering) :=
    h₁.bare_stripped_tidy fun f' hf' => (Abstraction.shared.inj hf') ▸ hf
  have hbare₂ : (Abstraction.perUnit.stripped d₂.body.tidy).map Instruction.bare =
      (d₂.outline .perUnit).map (Instruction.mapVars d₂.body.renumbering) :=
    h₂.bare_stripped_tidy nofun
  have hbare : (((Abstraction.shared f).stripped d₁.body.tidy).map (Instruction.mapVars φ)).map
      Instruction.bare = (Abstraction.perUnit.stripped d₂.body.tidy).map Instruction.bare :=
    calc (((Abstraction.shared f).stripped d₁.body.tidy).map (Instruction.mapVars φ)).map
          Instruction.bare
        = (((Abstraction.shared f).stripped d₁.body.tidy).map Instruction.bare).map
            (Instruction.mapVars φ) := by
          rw [List.map_map, List.map_map]
          exact List.map_congr_left fun i _ => Instruction.bare_mapVars φ i
      _ = ((d₁.outline (.shared f)).map (Instruction.mapVars σ)).map
            (Instruction.mapVars d₂.body.renumbering) := by
          rw [hbare₁, List.map_map, List.map_map]
          refine List.map_congr_left fun i hi => ?_
          rw [Function.comp_apply, Function.comp_apply, Instruction.mapVars_mapVars,
            Instruction.mapVars_mapVars]
          exact Instruction.mapVars_congr fun x hx =>
            hφ x (h₁.mem_usedVars_of_mentioned ⟨i, hi, hx⟩)
      _ = (Abstraction.perUnit.stripped d₂.body.tidy).map Instruction.bare := by
          rw [hbare₂, h.outline]
  obtain ⟨init₁, v₁, hcode₁, hs₁⟩ := h₁.stripped_tidy
  obtain ⟨init₂, v₂, hcode₂, hs₂⟩ := h₂.stripped_tidy
  rw [hcode₁, hcode₂, List.map_append] at hbare ⊢
  exact (hs₁.mapVars φ).eq_of_bare_ending hs₂ hbare

theorem counterparts (h : Alike f o.guard σ d₁ d₂) (hf : f ≠ o.guard)
    (h₁ : Drafted { o with abstraction := .shared f } p s e supers₁ exceptions₁ d₁ code₁)
    (h₂ : Drafted { o with abstraction := .perUnit } p s e supers₂ exceptions₂ d₂ code₂) :
    ∃ φ, Body.Counterparts f φ d₁.body.tidy d₂.body.tidy := by
  have hg₁ : ∀ f', Abstraction.shared f = .shared f' → f' ≠ o.guard := fun f' hf' =>
    (Abstraction.shared.inj hf') ▸ hf
  have hg₂ : ∀ f', Abstraction.perUnit = .shared f' → f' ≠ o.guard := nofun
  let M := mentioned (d₁.outline (.shared f))
  have hM : mentioned ((Abstraction.shared f).stripped d₁.body.tidy) =
      d₁.body.renumbering '' M := h₁.mentioned_stripped_tidy hg₁
  have hused₁ : ∀ x ∈ M, x ∈ d₁.body.usedVars := fun x hx => h₁.mem_usedVars_of_mentioned hx
  have hused₂ : ∀ x ∈ M, σ x ∈ d₂.body.usedVars := by
    intro x hx
    have hx' : σ x ∈ mentioned (d₂.outline .perUnit) := by
      rw [h.outline, mentioned_map_mapVars]
      exact ⟨x, hx, rfl⟩
    exact h₂.mem_usedVars_of_mentioned hx'
  have hlt : ∀ x ∈ M, x < d₁.declared.length := fun x hx => (Body.mem_usedVars.1 (hused₁ x hx)).1
  obtain ⟨φ, hφ⟩ := d₁.body.exists_renumbered (d₂.body.renumbering ∘ σ)
  have hcode := h.stripped_eq hf h₁ h₂ hφ
  obtain ⟨init₁, v₁, hcode₁, hs₁⟩ := h₁.stripped_tidy
  obtain ⟨init₂, v₂, hcode₂, hs₂⟩ := h₂.stripped_tidy
  refine ⟨φ, fun r => h₁.represents_tidy hg₁, fun r => h₂.represents_tidy hg₂, hcode, ?_, ?_, ?_,
    hcode₁ ▸ hs₁.passesThrows, hcode₂ ▸ hs₂.passesThrows⟩
  · have hinj : Set.InjOn φ (mentioned ((Abstraction.shared f).stripped d₁.body.tidy)) := by
      rw [hM]
      refine Set.InjOn.image_of_comp fun x hx y hy hxy => ?_
      rw [Function.comp_apply, Function.comp_apply, hφ x (hused₁ x hx), hφ y (hused₁ y hy)] at hxy
      exact h.injective (hlt x hx) (hlt y hy)
        (Body.renumbering_injective (hused₂ x hx) (hused₂ y hy) hxy)
    rw [← hcode, mentioned_map_mapVars]
    exact hinj.bijOn_image
  · rw [hM]
    rintro _ ⟨x, hx, rfl⟩
    obtain ⟨t, ht⟩ : ∃ t, d₁.typeOf? x = some t := Option.ne_none_iff_exists'.1 fun hn =>
      Nat.not_lt.2 ((Body.typeOf?_eq_none (b := d₁.body)).1 hn) (hlt x hx)
    refine ⟨t, ?_, ?_⟩
    · rw [Body.typeOf?_tidy (hused₁ x hx)]
      exact ht
    · rw [hφ x (hused₁ x hx), Function.comp_apply, Body.typeOf?_tidy (hused₂ x hx)]
      exact (h.types x (hlt x hx)).trans ht
  · rw [hM]
    rintro _ ⟨x, hx, rfl⟩
    rw [hφ x (hused₁ x hx)]
    exact (h₁.representative?_tidy_eq_some hg₁ (hused₁ x hx)).trans
      ((h.representatives x (hlt x hx)).trans
        (h₂.representative?_tidy_eq_some hg₂ (hused₂ x hx)).symm)

end Draft.Alike

/-- The drafts of one subject for a shared field and for a place of the body are alike. -/
theorem Drafted.alike {o : Options} {f : FieldRef} {p : Program} {s : Subject} {e : Effects}
    {supers₁ supers₂ exceptions₁ exceptions₂ : List MethodRef} {d₁ d₂ : Draft}
    {code₁ code₂ : List Instruction}
    (h₁ : Drafted { o with abstraction := .shared f } p s e supers₁ exceptions₁ d₁ code₁)
    (h₂ : Drafted { o with abstraction := .perUnit } p s e supers₂ exceptions₂ d₂ code₂)
    (ht : f.type = .object) (hf : f ≠ o.guard) : ∃ σ, Alike f o.guard σ d₁ d₂ := by
  have hsteps : s.steps p e (.collect p o.log e) supers₁ exceptions₁ =
      s.steps p e (.collect p o.log e) supers₂ exceptions₂ :=
    List.map_injective_iff.2 (fun _ _ => Except.ok.inj) (h₁.plan_eq.symm.trans h₂.plan_eq)
  obtain ⟨σ, h⟩ := (Alike.start f o.guard s).run ht hf (.refl id _)
    (Subject.within_start (e := e) (r := .collect p o.log e) h₁.superConstructors (length_start s))
  refine ⟨σ, ?_⟩
  rw [h₁.draft_eq, h₂.draft_eq, ← hsteps]
  exact h

theorem Step.emitAll_fst (a a' : Abstraction) (g : FieldRef)
    (ss : List (Except SynthesisError Step)) (d d' : Draft) :
    (emitAll a g d ss).1 = (emitAll a' g d' ss).1 := by
  induction ss generalizing d d' with
  | nil => rfl
  | cons step ss ih =>
    cases step with
    | error e => rfl
    | ok s => exact ih _ _

theorem Options.map_effects_write (o : Options) (p : Program) (s : Subject) (e : Effects) :
    (o.write p s e).outcome.map StandIn.effects =
      (Step.emitAll o.abstraction o.guard (Draft.start s)
        (s.plan p e (.collect p o.log e))).1.map fun _ => e := by
  unfold write
  simp only
  rcases Step.emitAll o.abstraction o.guard (Draft.start s) (s.plan p e (.collect p o.log e))
    with ⟨err | _, d⟩
  · rfl
  · rfl

/-- Whether a stand-in is made, from which effects and else with which error, does not depend on
the place. -/
theorem Options.map_effects_standIn (o : Options) (a a' : Abstraction) (p : Program)
    (m : MethodRef) :
    (({ o with abstraction := a } : Options).standIn p m).outcome.map StandIn.effects =
      (({ o with abstraction := a' } : Options).standIn p m).outcome.map StandIn.effects := by
  unfold standIn
  rcases subject p m with err | s
  · rfl
  rcases he : s.effects with err | e
  · simp only [he]
  simp only [he, map_effects_write]
  rw [Step.emitAll_fst a a']

/-- What a shared field `f` and a place of the body lead to is the same. -/
inductive SameOutcome (f : FieldRef) :
    Except SynthesisError StandIn → Except SynthesisError StandIn → Prop
  | error (e : SynthesisError) : SameOutcome f (.error e) (.error e)
  | ok {st₁ st₂ : StandIn} {φ : VarId → VarId} : st₁.effects = st₂.effects →
    Body.Counterparts f φ st₁.body st₂.body → SameOutcome f (.ok st₁) (.ok st₂)

/-- Stand-ins do not depend on the place, but for what goes through it. -/
theorem standIn_eitherPlace (o : Options) (p : Program) (m : MethodRef) {f : FieldRef}
    (ht : f.type = .object) (hf : f ≠ o.guard) :
    SameOutcome f (({ o with abstraction := .shared f } : Options).standIn p m).outcome
      (({ o with abstraction := .perUnit } : Options).standIn p m).outcome := by
  have heff := o.map_effects_standIn (.shared f) .perUnit p m
  generalize hr₁ : (({ o with abstraction := .shared f } : Options).standIn p m).outcome = r₁
    at heff ⊢
  generalize hr₂ : (({ o with abstraction := .perUnit } : Options).standIn p m).outcome = r₂
    at heff ⊢
  rcases r₁ with err₁ | st₁ <;> rcases r₂ with err₂ | st₂
  · rw [Except.error.inj heff]
    exact .error err₂
  · cases heff
  · cases heff
  · have he : st₁.effects = st₂.effects := Except.ok.inj heff
    obtain ⟨s, _, _, d₁, _, hs, _, h₁, hb₁⟩ := standIn_eq_ok hr₁
    obtain ⟨s', _, _, d₂, _, hs', _, h₂, hb₂⟩ := standIn_eq_ok hr₂
    cases hs.symm.trans hs'
    rw [← he] at h₂
    obtain ⟨σ, h⟩ := h₁.alike h₂ ht hf
    obtain ⟨φ, hφ⟩ := h.counterparts hf h₁ h₂
    refine .ok he (φ := φ) ?_
    rw [hb₁, hb₂]
    exact hφ

theorem standIn_eitherPlace_sample :
    ∃ st₁ st₂,
      ((Sample.options (.shared Sample.place)).standIn Sample.program Sample.constructor).outcome =
        .ok st₁ ∧
      ((Sample.options .perUnit).standIn Sample.program Sample.constructor).outcome = .ok st₂ ∧
      Sample.place.type = .object ∧ Sample.place ≠ (Sample.options .perUnit).guard ∧
      SameOutcome Sample.place (.ok st₁) (.ok st₂) :=
  ⟨_, _, rfl, rfl, rfl, by decide,
    standIn_eitherPlace (Sample.options .perUnit) Sample.program Sample.constructor
      (f := Sample.place) rfl (by decide)⟩

end Standin
