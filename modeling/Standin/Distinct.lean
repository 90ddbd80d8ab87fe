/-!
# Lists without repetitions

Items are kept in the order in which they first came.
-/

namespace Standin

variable {α : Type} [DecidableEq α]

/-- The list with `x` at its end, unless it holds `x` already. -/
def addNew (xs : List α) (x : α) : List α :=
  if x ∈ xs then xs else xs ++ [x]

/-- The list with each of `ys` added that it does not hold yet. -/
def addAllNew (xs ys : List α) : List α :=
  ys.foldl addNew xs

@[simp]
theorem mem_addNew {xs : List α} {x y : α} : y ∈ addNew xs x ↔ y ∈ xs ∨ y = x := by
  unfold addNew
  split
  · next h => exact ⟨.inl, fun hy => hy.elim id fun hy => hy ▸ h⟩
  · simp

theorem nodup_addNew {xs : List α} (x : α) (h : xs.Nodup) : (addNew xs x).Nodup := by
  unfold addNew
  split
  · exact h
  · next hx =>
    refine List.nodup_append.2 ⟨h, by simp, ?_⟩
    intro a ha b hb hab
    exact hx (List.mem_singleton.1 hb ▸ hab ▸ ha)

theorem mem_addAllNew {y : α} :
    ∀ {xs ys : List α}, y ∈ addAllNew xs ys ↔ y ∈ xs ∨ y ∈ ys
  | xs, [] => by simp [addAllNew]
  | xs, z :: ys => by
    have ih : y ∈ addAllNew (addNew xs z) ys ↔ y ∈ addNew xs z ∨ y ∈ ys := mem_addAllNew
    rw [addAllNew, List.foldl_cons, ← addAllNew, ih, mem_addNew, List.mem_cons, or_assoc]

theorem nodup_addAllNew (ys : List α) {xs : List α} (h : xs.Nodup) : (addAllNew xs ys).Nodup := by
  induction ys generalizing xs with
  | nil => exact h
  | cons y ys ih => exact ih (nodup_addNew y h)

end Standin
