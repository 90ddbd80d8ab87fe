import Mathlib.Data.List.Infix
import Mathlib.Data.List.TakeWhile
import Standin.Text.Blank
import Standin.Text.Split

/-!
# Cutting a text

`trim` leaves what stands between the blanks at the two ends (`exists_trim`, `trim_append`), and
`splitAt?` cuts at the separator that starts first (`splitAt?_eq_some`, `splitAt?_append`).
-/

namespace Standin.Text

/-! ## Blanks at the ends -/

/-- Nothing but blanks. -/
def IsBlanks (s : List Char) : Prop :=
  ∀ c ∈ s, isBlank c

/-- The text has no blank at either end. -/
structure IsTrimmed (s : List Char) : Prop where
  first : ∀ c ∈ s.head?, isBlank c = false
  last : ∀ c ∈ s.getLast?, isBlank c = false

theorem isTrimmed_reverse {s : List Char} : IsTrimmed s.reverse ↔ IsTrimmed s :=
  ⟨fun h => ⟨by simpa using h.last, by simpa using h.first⟩,
    fun h => ⟨by simpa using h.last, by simpa using h.first⟩⟩

theorem isTrimmed_of_forall {s : List Char} (h : ∀ c ∈ s, isBlank c = false) : IsTrimmed s where
  first c hc := h c (List.mem_of_mem_head? hc)
  last c hc := h c (List.mem_of_mem_getLast? hc)

theorem isTrimmed_between {c d : Char} (hc : isBlank c = false) (hd : isBlank d = false)
    (s : List Char) : IsTrimmed (c :: (s ++ [d])) where
  first := by simpa using hc
  last := by
    rw [← List.cons_append, List.getLast?_concat]
    simpa using hd

theorem trimStart_append {lead : List Char} (h : IsBlanks lead) (s : List Char) :
    trimStart (lead ++ s) = trimStart s :=
  List.dropWhile_append_of_pos h

theorem trimStart_eq_self {s : List Char} (h : ∀ c ∈ s.head?, isBlank c = false) :
    trimStart s = s := by
  rcases s with _ | ⟨c, s⟩
  · rfl
  · have hc : isBlank c = false := h c rfl
    simp [trimStart, hc]

theorem exists_trimStart (s : List Char) :
    ∃ lead, IsBlanks lead ∧ s = lead ++ trimStart s ∧
      ∀ c ∈ (trimStart s).head?, isBlank c = false := by
  refine ⟨s.takeWhile isBlank, fun c hc => List.mem_takeWhile_imp hc,
    (List.takeWhile_append_dropWhile).symm, fun c hc => ?_⟩
  have hne : trimStart s ≠ [] := by
    rintro h
    simp [h] at hc
  rw [List.head?_eq_some_head hne, Option.mem_some_iff] at hc
  rw [← hc]
  exact List.head_dropWhile_not isBlank hne

theorem trim_append {lead s trail : List Char} (hl : IsBlanks lead) (ht : IsBlanks trail)
    (hs : IsTrimmed s) : trim (lead ++ s ++ trail) = s := by
  have hr : IsBlanks trail.reverse := fun c hc => ht c (List.mem_reverse.1 hc)
  rw [trim, List.append_assoc, trimStart_append hl]
  rcases s with _ | ⟨c, s⟩
  · have hnil : trimStart trail = [] := List.dropWhile_eq_nil_iff.2 ht
    rw [List.nil_append, hnil]
    rfl
  · rw [trimStart_eq_self (s := c :: s ++ trail) hs.first]
    change (trimStart (c :: s ++ trail).reverse).reverse = c :: s
    rw [List.reverse_append, trimStart_append hr,
      trimStart_eq_self (isTrimmed_reverse.2 hs).first, List.reverse_reverse]

theorem isBlanks_nil : IsBlanks [] :=
  nofun

theorem exists_trim (s : List Char) :
    IsTrimmed (trim s) ∧
      ∃ lead trail, IsBlanks lead ∧ IsBlanks trail ∧ s = lead ++ trim s ++ trail := by
  obtain ⟨lead, hlead, hs, hfirst⟩ := exists_trimStart s
  obtain ⟨trail, htrail, hu, hlast⟩ := exists_trimStart (trimStart s).reverse
  have hstart : trimStart s = trim s ++ trail.reverse := by
    rw [← List.reverse_inj, hu, List.reverse_append, List.reverse_reverse]
    exact congrArg (trail ++ ·) (List.reverse_reverse _).symm
  refine ⟨⟨fun c hc => hfirst c ?_, ?_⟩, lead, trail.reverse, hlead,
    fun c hc => htrail c (List.mem_reverse.1 hc), ?_⟩
  · rw [hstart, List.head?_append, Option.mem_def.1 hc]
    rfl
  · change ∀ c ∈ (trimStart (trimStart s).reverse).reverse.getLast?, isBlank c = false
    rwa [List.getLast?_reverse]
  · rw [List.append_assoc, ← hstart]
    exact hs

theorem trim_eq_self {s : List Char} (h : IsTrimmed s) : trim s = s := by
  simpa using trim_append isBlanks_nil isBlanks_nil h

theorem trim_eq_nil_iff {s : List Char} : trim s = [] ↔ IsBlanks s := by
  constructor
  · intro h
    obtain ⟨-, lead, trail, hl, ht, hs⟩ := exists_trim s
    rw [h, List.append_nil] at hs
    rw [hs]
    exact List.forall_mem_append.2 ⟨hl, ht⟩
  · intro h
    simpa using trim_append h isBlanks_nil (isTrimmed_of_forall (s := []) nofun)

/-! ## Separators -/

theorem dropLead?_eq_some {lead s rest : List Char} :
    dropLead? lead s = some rest ↔ s = lead ++ rest := by
  induction lead generalizing s with
  | nil => simp [dropLead?, eq_comm]
  | cons c lead ih =>
    cases s with
    | nil => simp [dropLead?]
    | cons d s =>
      rw [dropLead?]
      split
      · next h => simp [h, ih]
      · next h => simp [Ne.symm h]

theorem dropLead?_eq_none {lead s : List Char} : dropLead? lead s = none ↔ ¬lead <+: s := by
  rw [Option.eq_none_iff_forall_ne_some]
  exact ⟨fun h ⟨rest, hr⟩ => h rest (dropLead?_eq_some.2 hr.symm),
    fun h rest hr => h ⟨rest, (dropLead?_eq_some.1 hr).symm⟩⟩

theorem splitAt?_of_lead {sep s rest : List Char} (h : dropLead? sep s = some rest) :
    splitAt? sep s = some ([], rest) := by
  cases s with
  | nil => rw [splitAt?, h, Option.map_some]
  | cons c s =>
    rw [splitAt?]
    simp only [h]

theorem splitAt?_cons {sep s : List Char} {c : Char} (h : dropLead? sep (c :: s) = none) :
    splitAt? sep (c :: s) = (splitAt? sep s).map fun (before, after) => (c :: before, after) := by
  rw [splitAt?]
  simp only [h]

/-- The cut is at the separator if there is none that starts before it. -/
theorem splitAt?_append {sep before after : List Char}
    (h : ∀ t ≠ [], t <:+ before → ¬sep <+: t ++ (sep ++ after)) :
    splitAt? sep (before ++ (sep ++ after)) = some (before, after) := by
  induction before with
  | nil => exact splitAt?_of_lead (dropLead?_eq_some.2 rfl)
  | cons c before ih =>
    have hlead : ¬sep <+: c :: (before ++ (sep ++ after)) :=
      h (c :: before) (by simp) (List.suffix_refl _)
    rw [List.cons_append, splitAt?_cons (dropLead?_eq_none.2 hlead),
      ih fun t ht hs => h t ht (hs.trans (List.suffix_cons c before)), Option.map_some]

theorem splitAt?_eq_some {sep s before after : List Char}
    (h : splitAt? sep s = some (before, after)) :
    s = before ++ (sep ++ after) ∧ (sep ≠ [] → ¬sep <:+: before) := by
  have hnil : sep ≠ [] → ¬sep <:+: [] := fun hsep hi => hsep (List.infix_nil.1 hi)
  induction s generalizing before with
  | nil =>
    obtain ⟨rest, hrest, heq⟩ := Option.map_eq_some_iff.1 h
    obtain ⟨rfl, rfl⟩ := Prod.mk.inj heq
    exact ⟨(dropLead?_eq_some.1 hrest).trans (List.nil_append _).symm, hnil⟩
  | cons c s ih =>
    rcases hlead : dropLead? sep (c :: s) with _ | rest
    · rw [splitAt?_cons hlead] at h
      obtain ⟨⟨before', after'⟩, hs, heq⟩ := Option.map_eq_some_iff.1 h
      obtain ⟨rfl, rfl⟩ := Prod.mk.inj heq
      obtain ⟨hsplit, hnot⟩ := ih hs
      refine ⟨congrArg (c :: ·) hsplit, fun hsep hinfix => ?_⟩
      rcases List.infix_cons_iff.1 hinfix with hpre | hin
      · rw [hsplit] at hlead
        exact dropLead?_eq_none.1 hlead (hpre.trans (List.prefix_append (c :: before') _))
      · exact hnot hsep hin
    · rw [splitAt?_of_lead hlead] at h
      obtain ⟨rfl, rfl⟩ := Prod.mk.inj (Option.some.inj h)
      exact ⟨(dropLead?_eq_some.1 hlead).trans (List.nil_append _).symm, hnil⟩

theorem splitAt?_char_iff {c : Char} {s before after : List Char} :
    splitAt? [c] s = some (before, after) ↔ s = before ++ c :: after ∧ c ∉ before := by
  constructor
  · intro h
    obtain ⟨hs, hc⟩ := splitAt?_eq_some h
    exact ⟨hs, by simpa [List.singleton_infix_iff] using hc⟩
  · rintro ⟨rfl, hc⟩
    refine splitAt?_append fun t ht hs hpre => ?_
    obtain ⟨d, t, rfl⟩ := List.exists_cons_of_ne_nil ht
    obtain rfl : c = d := by simpa using hpre
    exact hc (hs.mem List.mem_cons_self)

theorem splitAt?_colon_iff {s before after : List Char} :
    splitAt? [':', ' '] s = some (before, after) ↔
      s = before ++ ':' :: ' ' :: after ∧ ¬[':', ' '] <:+: before := by
  constructor
  · intro h
    obtain ⟨hs, hc⟩ := splitAt?_eq_some h
    exact ⟨hs, hc (by simp)⟩
  · rintro ⟨rfl, hc⟩
    refine splitAt?_append fun t ht hs hpre => hc ?_
    -- a colon and a blank that start before the separator end before it too
    rcases t with _ | ⟨d, _ | ⟨e, t⟩⟩
    · exact absurd rfl ht
    · simp at hpre
    · obtain ⟨rfl, rfl⟩ : ':' = d ∧ ' ' = e := by simpa using hpre
      exact List.IsInfix.trans (List.prefix_append [':', ' '] t).isInfix hs.isInfix

theorem splitOn_eq (sep : Char) (s : List Char) : splitOn sep s = s.splitOn sep := by
  induction s with
  | nil => rfl
  | cons c s ih =>
    rw [splitOn, List.splitOn_cons_eq_if_modifyHead, ih]
    by_cases hc : c = sep
    · simp [hc]
    · obtain ⟨piece, pieces, hs⟩ := List.exists_cons_of_ne_nil (List.splitOn_ne_nil sep s)
      simp [hc, hs]

theorem splitOn_cut {sep : Char} {piece : List Char} (h : sep ∉ piece) (s : List Char) :
    splitOn sep (piece ++ sep :: s) = piece :: splitOn sep s := by
  rw [splitOn_eq, splitOn_eq, List.splitOn_append_cons_self_of_not_mem h]

theorem splitOn_of_not_mem {sep : Char} {s : List Char} (h : sep ∉ s) : splitOn sep s = [s] := by
  rw [splitOn_eq, List.splitOn_eq_singleton h]

theorem head?_splitOn (sep : Char) (s : List Char) :
    (splitOn sep s).head? = some (s.takeWhile (· ≠ sep)) := by
  by_cases h : sep ∈ s
  · obtain ⟨piece, rest, rfl, hn⟩ := List.eq_append_cons_of_mem h
    have hp : ∀ c ∈ piece, decide (c ≠ sep) = true :=
      fun c hc => decide_eq_true fun hs => hn (hs ▸ hc)
    rw [splitOn_cut hn, List.takeWhile_append_of_pos hp]
    simp
  · have hp : ∀ c ∈ s, decide (c ≠ sep) = true :=
      fun c hc => decide_eq_true fun hs => h (hs ▸ hc)
    rw [splitOn_of_not_mem h, List.takeWhile_eq_self_iff.2 hp]
    rfl

theorem not_mem_of_mem_splitOn {sep : Char} {s piece : List Char} (h : piece ∈ splitOn sep s) :
    sep ∉ piece := by
  induction s generalizing piece with
  | nil =>
    obtain rfl := List.mem_singleton.1 h
    exact List.not_mem_nil
  | cons c s ih =>
    rw [splitOn] at h
    split at h
    · rcases List.mem_cons.1 h with rfl | h
      · exact List.not_mem_nil
      · exact ih h
    · next hc =>
      split at h
      · obtain rfl := List.mem_singleton.1 h
        simpa using Ne.symm hc
      · next hs =>
        rw [hs] at ih
        rcases List.mem_cons.1 h with rfl | h
        · exact List.not_mem_cons_of_ne_of_not_mem (Ne.symm hc) (ih List.mem_cons_self)
        · exact ih (List.mem_cons_of_mem _ h)

end Standin.Text
