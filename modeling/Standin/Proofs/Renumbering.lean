import Mathlib.Data.List.Perm.Subperm
import Standin.Proofs.EitherPlace
import Standin.Proofs.Execution

/-!
# Renumbered bodies

Two bodies are renumbered to the same one if and only if one is the other with its variables
renamed (`Body.Renames`). A body is a renaming of what it is renumbered to
(`Body.renames_renumber`), and a renaming that keeps the undeclared variables does not change what a
body is renumbered to (`Body.Renames.renumber_eq`), so to renumber a second time changes nothing.
-/

namespace Standin

/-- The body `b₂` is `b₁` with its variables renamed by `σ`, up to handlers, names of variables and
variables that are not used. -/
structure Body.Renames (b₁ b₂ : Body) (σ : VarId → VarId) : Prop where
  bijective : Set.BijOn σ (mentioned b₁.code) (mentioned b₂.code)
  types : ∀ x ∈ mentioned b₁.code, b₂.typeOf? (σ x) = b₁.typeOf? x
  code : b₂.code = b₁.code.map (Instruction.mapVars σ)

/-- In `b'` the variables of `b` have the new numbers `ρ`, and no others are declared. -/
structure Body.Renumbers (b b' : Body) (ρ : VarId → VarId) : Prop where
  occurrences : b'.code.flatMap Instruction.vars = (b.code.flatMap Instruction.vars).map ρ
  /-- An undeclared variable stays as it is, and undeclared. -/
  undeclared : ∀ x, b.declared.length ≤ x → ρ x = x ∧ b'.declared.length ≤ x
  used : ∀ x < b'.declared.length, x ∈ mentioned b'.code
  names : (b'.declared.map Variable.name).Nodup

/-! ## Lists of variables -/

theorem eraseDups_map {f : VarId → VarId} {xs : List VarId} (hf : Set.InjOn f {x | x ∈ xs}) :
    (xs.map f).eraseDups = xs.eraseDups.map f := by
  rw [← List.filterMap_eq_map, eraseDups_filterMap]
  intro x hx y hy z hfx hfy
  exact hf hx hy (Option.some.inj (hfx.trans hfy.symm))

theorem idxOf_map {f : VarId → VarId} {xs : List VarId} (h : (xs.map f).Nodup) {x : VarId}
    (hx : x ∈ xs) : (xs.map f).idxOf (f x) = xs.idxOf x := by
  have hl : xs.idxOf x < (xs.map f).length := by
    rw [List.length_map]
    exact List.idxOf_lt_length_of_mem hx
  have hget : (xs.map f)[xs.idxOf x] = f x := by
    rw [List.getElem_map, List.getElem_idxOf]
  rw [← hget, h.idxOf_getElem]

/-! ## Renaming -/

theorem Instruction.mapVars_id : Instruction.mapVars id = id := by
  have hv : ∀ v : Operand, v.mapVars id = v := by
    intro v
    cases v <;> rfl
  have hvs : Operand.mapVars id = id := funext hv
  have hc : ∀ c : Invocation, c.mapVars id = c := by
    intro c
    simp [Invocation.mapVars, hvs]
  have hp : ∀ p : Place, p.mapVars id = p := by
    intro p
    cases p <;> simp [Place.mapVars, hv]
  have he : ∀ e : Expr, e.mapVars id = e := by
    intro e
    cases e <;> simp [Expr.mapVars, hv, hvs, hc]
  funext i
  cases i <;> simp [mapVars, hv, hvs, hc, hp, he]

theorem map_mapVars_congr {σ τ : VarId → VarId} {code : List Instruction}
    (h : ∀ x ∈ mentioned code, σ x = τ x) :
    code.map (Instruction.mapVars σ) = code.map (Instruction.mapVars τ) :=
  List.map_congr_left fun i hi => Instruction.mapVars_congr fun x hx => h x ⟨i, hi, hx⟩

theorem map_mapVars_mapVars (σ τ : VarId → VarId) (code : List Instruction) :
    (code.map (Instruction.mapVars σ)).map (Instruction.mapVars τ) =
      code.map (Instruction.mapVars (τ ∘ σ)) := by
  rw [List.map_map]
  exact List.map_congr_left fun i _ => Instruction.mapVars_mapVars σ τ i

theorem flatMap_vars_mapVars (σ : VarId → VarId) (code : List Instruction) :
    (code.map (Instruction.mapVars σ)).flatMap Instruction.vars =
      (code.flatMap Instruction.vars).map σ := by
  simp only [List.flatMap_map, List.map_flatMap, Instruction.vars_mapVars]

theorem mem_mentioned {code : List Instruction} {x : VarId} :
    x ∈ mentioned code ↔ x ∈ code.flatMap Instruction.vars :=
  List.mem_flatMap.symm

namespace Body

variable {b b₁ b₂ b₃ : Body} {σ τ : VarId → VarId}

namespace Renames

theorem symm (h : b₁.Renames b₂ σ) :
    b₂.Renames b₁ (Function.invFunOn σ (mentioned b₁.code)) := by
  have hinv := h.bijective.invOn_invFunOn
  have hback := h.bijective.symm hinv.symm
  refine ⟨hback, fun y hy => ?_, ?_⟩
  · have htypes := h.types _ (hback.mapsTo hy)
    rw [hinv.2 hy] at htypes
    exact htypes.symm
  · have hcode : b₁.code.map (Instruction.mapVars
        (Function.invFunOn σ (mentioned b₁.code) ∘ σ)) =
        b₁.code.map (Instruction.mapVars id) :=
      map_mapVars_congr fun x hx => hinv.1 hx
    rw [h.code, map_mapVars_mapVars, hcode, Instruction.mapVars_id, List.map_id]

theorem trans (h : b₁.Renames b₂ σ) (h' : b₂.Renames b₃ τ) : b₁.Renames b₃ (τ ∘ σ) := by
  refine ⟨h'.bijective.comp h.bijective, fun x hx => ?_, ?_⟩
  · rw [Function.comp_apply, h'.types _ (h.bijective.mapsTo hx), h.types x hx]
  · rw [h'.code, h.code, map_mapVars_mapVars]

/-- A renaming keeps which variables are declared. -/
theorem lt_iff (h : b₁.Renames b₂ σ) {x : VarId} (hx : x ∈ mentioned b₁.code) :
    σ x < b₂.declared.length ↔ x < b₁.declared.length := by
  rw [← Nat.not_le, ← Nat.not_le, ← typeOf?_eq_none, ← typeOf?_eq_none, h.types x hx]

theorem usedVars (h : b₁.Renames b₂ σ) : b₂.usedVars = b₁.usedVars.map σ := by
  have hfilter : ((b₁.code.flatMap Instruction.vars).map σ).filter (· < b₂.declared.length) =
      ((b₁.code.flatMap Instruction.vars).filter (· < b₁.declared.length)).map σ := by
    rw [List.filter_map]
    refine congrArg (List.map σ) (List.filter_congr fun x hx => ?_)
    rw [Function.comp_apply, decide_eq_decide]
    exact h.lt_iff (mem_mentioned.2 hx)
  rw [Body.usedVars, Body.usedVars, h.code, flatMap_vars_mapVars, hfilter]
  refine eraseDups_map (h.bijective.injOn.mono fun x hx => ?_)
  exact mem_mentioned.2 (List.mem_filter.1 hx).1

theorem renumbering_comp (h : b₁.Renames b₂ σ)
    (hσ : ∀ x ∈ mentioned b₁.code, b₁.declared.length ≤ x → σ x = x) {x : VarId}
    (hx : x ∈ mentioned b₁.code) : b₂.renumbering (σ x) = b₁.renumbering x := by
  unfold renumbering VarId.renumbered
  by_cases hlt : x < b₁.declared.length
  · rw [if_pos hlt, if_pos ((h.lt_iff hx).2 hlt), h.usedVars]
    refine idxOf_map ?_ (mem_usedVars.2 ⟨hlt, hx⟩)
    rw [← h.usedVars]
    exact nodup_eraseDups _
  · rw [if_neg hlt, if_neg (mt (h.lt_iff hx).1 hlt), hσ x hx (Nat.not_lt.1 hlt)]

/-- What a body is renumbered to does not depend on the numbers of its declared variables. -/
theorem renumber_eq (h : b₁.Renames b₂ σ) (hh : b₁.handlers = b₂.handlers)
    (hσ : ∀ x ∈ mentioned b₁.code, b₁.declared.length ≤ x → σ x = x) :
    b₁.renumber = b₂.renumber := by
  have htypes : b₁.usedVars.filterMap b₁.typeOf? = b₂.usedVars.filterMap b₂.typeOf? := by
    rw [h.usedVars, List.filterMap_map]
    refine List.filterMap_congr fun x hx => ?_
    rw [Function.comp_apply, h.types x (mem_usedVars.1 hx).2]
  have hcode : b₁.renumber.code = b₂.renumber.code := by
    rw [code_renumber, code_renumber, h.code, map_mapVars_mapVars]
    exact map_mapVars_congr fun x hx => (h.renumbering_comp hσ hx).symm
  exact (Body.mk.injEq ..).mpr ⟨congrArg (Variable.named []) htypes, hcode, hh⟩

end Renames

/-! ## Renumbering -/

theorem length_usedVars_le (b : Body) : b.usedVars.length ≤ b.declared.length := by
  have hsub : b.usedVars ⊆ List.range b.declared.length := fun x hx =>
    List.mem_range.2 (mem_usedVars.1 hx).1
  have hle := (List.subperm_of_subset (nodup_eraseDups _) hsub).length_le
  rwa [List.length_range] at hle

theorem renumbering_of_le {x : VarId} (hx : b.declared.length ≤ x) : b.renumbering x = x :=
  if_neg (Nat.not_lt.2 hx)

theorem renumbering_lt {x : VarId} (hx : x ∈ b.usedVars) :
    b.renumbering x < b.usedVars.length := by
  rw [renumbering_of_mem hx]
  exact List.idxOf_lt_length_of_mem hx

theorem injOn_renumbering (b : Body) : Set.InjOn b.renumbering (mentioned b.code) := by
  intro x hx y hy hxy
  have hle := b.length_usedVars_le
  by_cases hxl : x < b.declared.length <;> by_cases hyl : y < b.declared.length
  · exact renumbering_injective (mem_usedVars.2 ⟨hxl, hx⟩) (mem_usedVars.2 ⟨hyl, hy⟩) hxy
  · have hlt := renumbering_lt (mem_usedVars.2 ⟨hxl, hx⟩)
    rw [hxy, renumbering_of_le (Nat.not_lt.1 hyl)] at hlt
    exact absurd (hlt.trans_le hle) hyl
  · have hlt := renumbering_lt (mem_usedVars.2 ⟨hyl, hy⟩)
    rw [← hxy, renumbering_of_le (Nat.not_lt.1 hxl)] at hlt
    exact absurd (hlt.trans_le hle) hxl
  · rwa [renumbering_of_le (Nat.not_lt.1 hxl), renumbering_of_le (Nat.not_lt.1 hyl)] at hxy

theorem length_declared_renumber_le (b : Body) :
    b.renumber.declared.length ≤ b.declared.length := by
  rw [length_declared_renumber]
  exact b.length_usedVars_le

theorem renames_renumber (b : Body) : b.Renames b.renumber b.renumbering where
  bijective := by
    rw [code_renumber, mentioned_map_mapVars]
    exact b.injOn_renumbering.bijOn_image
  types := by
    intro x hx
    by_cases hl : x < b.declared.length
    · exact typeOf?_renumber (mem_usedVars.2 ⟨hl, hx⟩)
    · have hle := Nat.not_lt.1 hl
      rw [renumbering_of_le hle, typeOf?_eq_none.2 hle]
      exact typeOf?_eq_none.2 (b.length_declared_renumber_le.trans hle)
  code := b.code_renumber

theorem renumber_renumber (b : Body) : b.renumber.renumber = b.renumber :=
  (b.renames_renumber.renumber_eq rfl fun _ _ hx => renumbering_of_le hx).symm

theorem renumber_eq_iff (h₁ : b₁.Scoped) :
    b₁.renumber = b₂.renumber ↔ b₁.handlers = b₂.handlers ∧ ∃ σ, b₁.Renames b₂ σ := by
  constructor
  · intro h
    have hh : b₁.renumber.handlers = b₂.renumber.handlers := by rw [h]
    have h₁₂ := b₁.renames_renumber
    rw [h] at h₁₂
    exact ⟨hh, _, h₁₂.trans b₂.renames_renumber.symm⟩
  · rintro ⟨hh, σ, h⟩
    refine h.renumber_eq hh fun x ⟨i, hi, hx⟩ hle => ?_
    exact absurd (h₁ i hi x hx) (Nat.not_lt.2 hle)

end Body

/-! ## Names -/

theorem name_injective {c c' : Char} {n n' : Nat}
    (h : String.ofList (c :: Nat.toDigits 10 n) = String.ofList (c' :: Nat.toDigits 10 n')) :
    c = c' ∧ n = n' := by
  obtain ⟨hc, hn⟩ := List.cons.inj (String.ofList_injective h)
  refine ⟨hc, ?_⟩
  rw [← Nat.ofDigitChars_ten_toDigits (n := n), hn, Nat.ofDigitChars_ten_toDigits]

namespace Variable

/-- Among variables of a letter the numbers begin where the ones before the list end. -/
theorem exists_of_mem_named {v : Variable} : ∀ {seen : List Char} {ts : List ValueType},
    v ∈ named seen ts → ∃ n, v.name = String.ofList (v.type.letter :: Nat.toDigits 10 n) ∧
      seen.count v.type.letter ≤ n
  | _, [], h => by cases h
  | seen, t :: ts, h => by
    rcases List.mem_cons.1 h with rfl | h
    · exact ⟨_, rfl, Nat.le_refl _⟩
    · obtain ⟨n, hname, hle⟩ := exists_of_mem_named h
      exact ⟨n, hname, (List.count_le_count_cons).trans hle⟩

theorem nodup_named : ∀ (seen : List Char) (ts : List ValueType),
    ((named seen ts).map name).Nodup
  | _, [] => List.nodup_nil
  | seen, t :: ts => by
    rw [named, List.map_cons, List.nodup_cons]
    refine ⟨fun hmem => ?_, nodup_named _ ts⟩
    obtain ⟨v, hv, heq⟩ := List.mem_map.1 hmem
    obtain ⟨n, hname, hle⟩ := exists_of_mem_named hv
    obtain ⟨hletter, rfl⟩ := name_injective (hname.symm.trans heq)
    rw [hletter, List.count_cons_self] at hle
    omega

end Variable

namespace Body

theorem renumbers_renumber (b : Body) : b.Renumbers b.renumber b.renumbering where
  occurrences := by rw [code_renumber, flatMap_vars_mapVars]
  undeclared x hx := ⟨renumbering_of_le hx, b.length_declared_renumber_le.trans hx⟩
  used := by
    intro x hx
    rw [length_declared_renumber, ← length_declared_tidy] at hx
    obtain ⟨y, hy, rfl⟩ := exists_of_lt_tidy hx
    exact b.renames_renumber.bijective.mapsTo (mem_usedVars.1 hy).2
  names := Variable.nodup_named _ _

theorem renumbers_tidy (b : Body) : b.Renumbers b.tidy b.renumbering := by
  have h := b.dropNops.renumbers_renumber
  rw [renumbering_dropNops] at h
  refine ⟨?_, ?_, h.used, h.names⟩
  · rw [← b.flatMap_vars_dropNops]
    exact h.occurrences
  · rw [← b.declared_dropNops]
    exact h.undeclared

end Body

/-! ## Tidying twice -/

theorem survivors_eq_self : ∀ {code : List Instruction},
    (∀ k, code[k]? = some .nop → k + 1 = code.length) → survivors code = code
  | [], _ => rfl
  | [_], _ => rfl
  | i :: j :: rest, h => by
    have hi : ¬i.isNop := by
      intro hi
      cases i <;> cases hi
      simpa using h 0 rfl
    rw [survivors, if_neg hi, survivors_eq_self fun k hk => ?_]
    simpa using h (k + 1) hk

theorem Instruction.mapVars_eq_nop {σ : VarId → VarId} {i : Instruction} :
    i.mapVars σ = .nop ↔ i = .nop := by
  cases i <;> simp [mapVars]

namespace Body

theorem dropNops_eq_self {b : Body} (h : ∀ k, b.code[k]? = some .nop → k + 1 = b.code.length) :
    b.dropNops = b := by
  rw [dropNops, survivors_eq_self h]
  exact if_pos rfl

theorem tidy_tidy (b : Body) : b.tidy.tidy = b.tidy := by
  have hnops : b.tidy.dropNops = b.tidy := by
    refine dropNops_eq_self fun k hk => ?_
    rw [tidy, code_renumber, List.getElem?_map] at hk
    obtain ⟨i, hi, hnop⟩ := Option.map_eq_some_iff.1 hk
    rw [tidy, code_renumber, List.length_map]
    exact nop_dropNops (Instruction.mapVars_eq_nop.1 hnop ▸ hi)
  rw [tidy, hnops]
  exact b.dropNops.renumber_renumber

end Body

/-- If the variables of a body are declared, then another body is renumbered to the same one if and
only if it has the same handlers and the same code up to the numbers of variables. To renumber or to
tidy any body a second time changes nothing. -/
theorem renumber_canonical :
    (∀ b₁ b₂ : Body, b₁.Scoped →
        (b₁.renumber = b₂.renumber ↔ b₁.handlers = b₂.handlers ∧ ∃ σ, b₁.Renames b₂ σ)) ∧
      ∀ b : Body, b.renumber.renumber = b.renumber ∧ b.tidy.tidy = b.tidy ∧
        ∃ ρ, b.Renames b.renumber ρ ∧ b.Renumbers b.renumber ρ ∧ b.Renumbers b.tidy ρ := by
  refine ⟨fun b₁ b₂ h₁ => Body.renumber_eq_iff h₁, fun b => ?_⟩
  refine ⟨b.renumber_renumber, b.tidy_tidy, b.renumbering, ?_⟩
  exact ⟨b.renames_renumber, b.renumbers_renumber, b.renumbers_tidy⟩

namespace Sample

/-- Returns its parameter `items` after a loop over `count`. -/
def looping (declared : List Variable) (items count : VarId) : Body where
  declared
  code := [.bind items (.parameter 0), .assign (.var count) (.use (.const (.int 1))),
    .branch (.var count) 1, .ret (some (.var items))]
  handlers := [⟨"java.lang.Throwable", 0, 3, 3⟩]

/-- The body with a variable that it does not use. -/
def spacious : Body :=
  looping [⟨"unused", .object⟩, ⟨"count", .primitive .int⟩, ⟨"items", .reference "java.util.List"⟩]
    2 1

/-- The body with other names, and with no variable that it does not use. -/
def compact : Body :=
  looping [⟨"l", .reference "java.util.List"⟩, ⟨"n", .primitive .int⟩] 0 1

end Sample

theorem renumber_canonical_looping :
    Sample.spacious.Scoped ∧ Sample.spacious.renumber = Sample.compact.renumber ∧
      ∃ σ, Sample.spacious.Renames Sample.compact σ := by
  have hscoped : Sample.spacious.Scoped := by
    simp [Body.Scoped, Sample.spacious, Sample.looping, Instruction.vars, Place.vars, Expr.vars,
      Operand.vars]
  have heq : Sample.spacious.renumber = Sample.compact.renumber := by decide +kernel
  exact ⟨hscoped, heq, ((renumber_canonical.1 _ _ hscoped).1 heq).2⟩

end Standin
