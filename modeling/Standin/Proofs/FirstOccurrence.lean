import Mathlib.Data.List.Induction
import Standin.Distinct

/-!
# The order of first occurrence

Items that are added one after another to an empty list, each unless it is there already, are what
`List.eraseDups` leaves of them (`addAllNew_nil`). Reading something off the items before or after
makes no difference if different items have different readings (`eraseDups_filterMap`).
-/

namespace Standin

variable {α β : Type} [DecidableEq α]

theorem eraseDups_concat (xs : List α) (x : α) :
    (xs ++ [x]).eraseDups = addNew xs.eraseDups x := by
  by_cases hx : x ∈ xs
  · simp [List.eraseDups_append, List.removeAll, addNew, hx]
  · simp [List.eraseDups_append, List.removeAll, addNew, hx, List.eraseDups_cons]

theorem addAllNew_nil (xs : List α) : addAllNew [] xs = xs.eraseDups := by
  induction xs using List.reverseRecOn with
  | nil => rfl
  | append_singleton xs x ih =>
    rw [eraseDups_concat, ← ih]
    exact List.foldl_append

theorem nodup_eraseDups (xs : List α) : xs.eraseDups.Nodup :=
  addAllNew_nil xs ▸ nodup_addAllNew xs .nil

theorem filterMap_addNew_of_none {f : α → Option β} {x : α} (hx : f x = none) (xs : List α) :
    (addNew xs x).filterMap f = xs.filterMap f := by
  unfold addNew
  split
  · rfl
  · rw [List.filterMap_append, List.filterMap_cons_none hx, List.filterMap_nil, List.append_nil]

theorem filterMap_addNew_of_some [DecidableEq β] {f : α → Option β} {x : α} {z : β}
    (hx : f x = some z) {xs : List α} (hf : ∀ y ∈ xs, f y = some z → y = x) :
    (addNew xs x).filterMap f = addNew (xs.filterMap f) z := by
  have hmem : z ∈ xs.filterMap f ↔ x ∈ xs := by
    rw [List.mem_filterMap]
    exact ⟨fun ⟨y, hy, hz⟩ => hf y hy hz ▸ hy, fun h => ⟨x, h, hx⟩⟩
  unfold addNew
  simp only [hmem]
  split
  · rfl
  · rw [List.filterMap_append, List.filterMap_cons_some hx, List.filterMap_nil]

theorem eraseDups_filterMap [DecidableEq β] {f : α → Option β} {xs : List α}
    (hf : ∀ x ∈ xs, ∀ y ∈ xs, ∀ z, f x = some z → f y = some z → x = y) :
    (xs.filterMap f).eraseDups = xs.eraseDups.filterMap f := by
  induction xs using List.reverseRecOn with
  | nil => rfl
  | append_singleton xs x ih =>
    have hxs : ∀ y ∈ xs, y ∈ xs ++ [x] := fun y hy => List.mem_append_left _ hy
    have hx : x ∈ xs ++ [x] := List.mem_append_right _ (List.mem_singleton.2 rfl)
    have ih := ih fun y hy z hz => hf y (hxs y hy) z (hxs z hz)
    rw [List.filterMap_append, eraseDups_concat]
    rcases hfx : f x with _ | z
    · rw [List.filterMap_cons_none hfx, List.filterMap_nil, List.append_nil, ih,
        filterMap_addNew_of_none hfx]
    · rw [List.filterMap_cons_some hfx, List.filterMap_nil, eraseDups_concat, ih,
        filterMap_addNew_of_some hfx]
      exact fun y hy hz => hf y (hxs y (List.mem_eraseDups.1 hy)) x hx z hz hfx

end Standin
