import Standin.Proofs.Code

/-!
# Straight code

Control goes from an instruction to the next one, to the target of a branch, or nowhere
(`Instruction.next`), and a run through a body passes instructions from the first one on
(`Body.Run`). Code is straight if every branch in it passes over the throw behind it and over
nothing else (`Straight`). A run through straight code that returns at its end has passed every
instruction before the one that it is at, but for some throws (`Straight.passes`), so a variable
that the code gives a value before it reads it (`Defines`) has a value whenever a run reads it.
Code stays straight when instructions are taken out and the targets move along (`Straight.thin`).
-/

namespace Standin

namespace Instruction

/-- The variables whose values the instruction needs. -/
def reads : Instruction → List VarId
  | bind _ _ => []
  | assign (.var _) value => value.vars
  | i => i.vars

/-- The variable that the instruction gives a value. -/
def written? (i : Instruction) : Option VarId :=
  i.origin?.map Prod.fst

/-- Where control may go from the instruction at position `k`. -/
def next (k : Nat) : Instruction → List Nat
  | branch _ t => [k + 1, t]
  | goto t => [t]
  | throw _ => []
  | ret _ => []
  | _ => [k + 1]

/-- Control goes on at the next instruction in any case. -/
def fallsThrough : Instruction → Bool
  | bind _ _ => true
  | assign _ _ => true
  | invoke _ => true
  | nop => true
  | _ => false

variable (f : VarId → VarId) (move : Nat → Nat)

theorem next_of_fallsThrough {i : Instruction} (h : i.fallsThrough) (k : Nat) :
    i.next k = [k + 1] := by
  cases i with
  | bind | assign | invoke | nop => rfl
  | throw | branch | goto | ret => cases h

theorem mapTarget_of_fallsThrough {i : Instruction} (h : i.fallsThrough) :
    i.mapTarget move = i := by
  cases i with
  | bind | assign | invoke | nop => rfl
  | throw | branch | goto | ret => cases h

@[simp]
theorem fallsThrough_mapVars (i : Instruction) : (i.mapVars f).fallsThrough = i.fallsThrough := by
  cases i <;> rfl

theorem reads_mapVars (i : Instruction) : (i.mapVars f).reads = i.reads.map f := by
  have h := vars_mapVars f i
  cases i with
  | bind x s => rfl
  | assign dest e =>
    cases dest with
    | var x => exact (List.cons.inj h).2
    | _ => exact h
  | _ => exact h

@[simp]
theorem reads_mapTarget (i : Instruction) : (i.mapTarget move).reads = i.reads := by
  cases i <;> rfl

theorem written?_mapVars (i : Instruction) : (i.mapVars f).written? = i.written?.map f := by
  rw [written?, origin?_mapVars, written?, Option.map_map, Option.map_map]
  rfl

@[simp]
theorem written?_mapTarget (i : Instruction) : (i.mapTarget move).written? = i.written? := by
  cases i <;> rfl

theorem written?_eq_some {i : Instruction} {x : VarId} :
    i.written? = some x ↔ ∃ o, i.origin? = some (x, o) := by
  unfold written?
  rcases i.origin? with _ | ⟨y, o⟩
  · simp
  · simp [eq_comm]

end Instruction

/-! ## Values before they are read -/

/-- The code gives every variable a value before it reads it, if those in `known` have one. -/
def Defines : List VarId → List Instruction → Prop
  | _, [] => True
  | known, i :: code => i.reads ⊆ known ∧ Defines (i.written?.toList ++ known) code

namespace Defines

variable {known known' : List VarId} {code : List Instruction}

theorem mono (hk : known ⊆ known') (h : Defines known code) : Defines known' code := by
  induction code generalizing known known' with
  | nil => trivial
  | cons i code ih =>
    refine ⟨List.Subset.trans h.1 hk, ih ?_ h.2⟩
    exact List.append_subset.2
      ⟨List.subset_append_left _ _, List.subset_append_of_subset_right _ hk⟩

theorem append {code' : List Instruction} (h : Defines known code)
    (h' : Defines (code.filterMap Instruction.written? ++ known) code') :
    Defines known (code ++ code') := by
  induction code generalizing known with
  | nil => exact h'
  | cons i code ih =>
    refine ⟨h.1, ih h.2 (h'.mono fun x hx => ?_)⟩
    rcases hw : i.written? with _ | y <;>
      simp only [List.filterMap_cons, hw, Option.toList_none, Option.toList_some, List.mem_append,
        List.mem_cons, List.not_mem_nil, or_false, false_or] at hx ⊢
    · exact hx
    · tauto

theorem survivors : ∀ {known : List VarId} {code : List Instruction}, Defines known code →
    Defines known (survivors code)
  | _, [], h => h
  | _, [_], h => h
  | known, i :: j :: rest, h => by
    rw [Standin.survivors]
    split
    · next hi =>
      have hw : i.written? = none := by cases i <;> simp_all [Instruction.isNop]; rfl
      have hrest := h.2
      rw [hw, Option.toList_none, List.nil_append] at hrest
      exact hrest.survivors
    · exact ⟨h.1, h.2.survivors⟩

theorem map {f : Instruction → Instruction} {g : VarId → VarId} (h : Defines known code)
    (hr : ∀ i, (f i).reads = i.reads.map g) (hw : ∀ i, (f i).written? = i.written?.map g) :
    Defines (known.map g) (code.map f) := by
  induction code generalizing known with
  | nil => trivial
  | cons i code ih =>
    refine ⟨?_, ?_⟩
    · rw [hr]
      exact List.map_subset _ h.1
    · have hrest := ih h.2
      rw [List.map_append] at hrest
      rw [hw]
      rcases hi : i.written? with _ | x <;> rw [hi] at hrest <;> exact hrest

theorem tidy {b : Body} (h : Defines [] b.code) : Defines [] b.tidy.code := by
  have hdrop : Defines [] b.dropNops.code := by
    unfold Body.dropNops
    simp only
    split
    · exact h
    · exact h.survivors.map (g := id) (by simp) (by simp)
  exact hdrop.map (Instruction.reads_mapVars _) (Instruction.written?_mapVars _)

theorem exists_write (h : Defines known code) {k : Nat} {i : Instruction} {x : VarId}
    (hi : code[k]? = some i) (hx : x ∈ i.reads) :
    x ∈ known ∨ ∃ j < k, ∃ i', code[j]? = some i' ∧ i'.written? = some x := by
  induction code generalizing known k with
  | nil => cases hi
  | cons i₀ code ih =>
    cases k with
    | zero =>
      cases hi
      exact .inl (h.1 hx)
    | succ k =>
      rcases ih h.2 hi with hk | ⟨j, hj, i', hi', hw⟩
      · rcases List.mem_append.1 hk with hw | hk
        · exact .inr ⟨0, Nat.succ_pos k, i₀, rfl, Option.mem_toList.1 hw⟩
        · exact .inl hk
      · exact .inr ⟨j + 1, Nat.succ_lt_succ hj, i', hi', hw⟩

end Defines

/-! ## Branches over throws -/

/-- Code from position `pos` on in which control falls through, or passes over a throw. -/
inductive Straight : Nat → List Instruction → Prop
  | nil {pos : Nat} : Straight pos []
  | cons {pos : Nat} {i : Instruction} {code : List Instruction} :
    i.fallsThrough → Straight (pos + 1) code → Straight pos (i :: code)
  | guarded {pos : Nat} {c v : Operand} {code : List Instruction} :
    Straight (pos + 2) code → Straight pos (.branch c (pos + 2) :: .throw v :: code)

/-- How many of the instructions before position `t` stay without those that satisfy `q`. -/
def keptBefore (q : Instruction → Bool) (code : List Instruction) (t : Nat) : Nat :=
  (code.take t).countP fun i => !q i

/-- The code without the instructions that satisfy `q`. A target moves to the next instruction that
stays. -/
def without (q : Instruction → Bool) (code : List Instruction) : List Instruction :=
  (code.filter fun i => !q i).map (Instruction.mapTarget (keptBefore q code))

namespace Straight

variable {pos : Nat} {code : List Instruction}

theorem of_fallsThrough (h : ∀ i ∈ code, i.fallsThrough) : Straight pos code := by
  induction code generalizing pos with
  | nil => exact .nil
  | cons i code ih =>
    exact .cons (h i List.mem_cons_self) (ih fun j hj => h j (List.mem_cons_of_mem _ hj))

theorem append {code' : List Instruction} (h : Straight pos code)
    (h' : Straight (pos + code.length) code') : Straight pos (code ++ code') := by
  induction h with
  | nil => exact h'
  | @cons pos i code hi _ ih =>
    refine .cons hi (ih ?_)
    rwa [Nat.add_assoc, Nat.add_comm 1]
  | @guarded pos c v code _ ih =>
    refine .guarded (ih ?_)
    rwa [Nat.add_assoc, Nat.add_comm 2]

theorem mapVars (f : VarId → VarId) (h : Straight pos code) :
    Straight pos (code.map (Instruction.mapVars f)) := by
  induction h with
  | nil => exact .nil
  | cons hi _ ih => exact .cons (by rwa [Instruction.fallsThrough_mapVars]) ih
  | guarded _ ih => exact .guarded ih

theorem cases_getElem? (h : Straight pos code) {k : Nat} {i : Instruction}
    (hi : code[k]? = some i) :
    i.fallsThrough ∨
      (∃ c v, i = .branch c (pos + k + 2) ∧ code[k + 1]? = some (.throw v)) ∨
      ∃ v, i = .throw v := by
  induction h generalizing k with
  | nil => cases hi
  | @cons pos i₀ code h₀ _ ih =>
    cases k with
    | zero =>
      cases hi
      exact .inl h₀
    | succ k =>
      rcases ih hi with hf | ⟨c, v, rfl, hv⟩ | hv
      · exact .inl hf
      · refine .inr (.inl ⟨c, v, ?_, hv⟩)
        rw [Nat.add_right_comm pos 1 k, Nat.add_assoc pos k 1]
      · exact .inr (.inr hv)
  | @guarded pos c v code _ ih =>
    rcases k with _ | _ | k
    · cases hi
      exact .inr (.inl ⟨c, v, rfl, rfl⟩)
    · cases hi
      exact .inr (.inr ⟨v, rfl⟩)
    · rcases ih hi with hf | ⟨c', v', rfl, hv⟩ | hv
      · exact .inl hf
      · refine .inr (.inl ⟨c', v', ?_, hv⟩)
        rw [Nat.add_right_comm pos 2 k, Nat.add_assoc pos k 2]
      · exact .inr (.inr hv)

theorem cases_mem (h : Straight pos code) {i : Instruction} (hi : i ∈ code) :
    i.fallsThrough ∨ (∃ c t, i = .branch c t) ∨ ∃ v, i = .throw v := by
  obtain ⟨k, hk⟩ := List.mem_iff_getElem?.1 hi
  rcases h.cases_getElem? hk with hf | ⟨c, v, rfl, _⟩ | hv
  · exact .inl hf
  · exact .inr (.inl ⟨c, _, rfl⟩)
  · exact .inr (.inr hv)

/-- Straight code that is longer by a return. -/
theorem cases_ending (h : Straight 0 code) {v : Option Operand} {k : Nat} {i : Instruction}
    (hi : (code ++ [.ret v])[k]? = some i) :
    (i.fallsThrough ∧ k < code.length) ∨
      (∃ c w, i = .branch c (k + 2) ∧ (code ++ [.ret v])[k + 1]? = some (.throw w) ∧
        k + 1 < code.length) ∨
      (∃ w, i = .throw w) ∨ i = .ret v := by
  rcases Nat.lt_or_ge k code.length with hk | hk
  · rw [List.getElem?_append_left hk] at hi
    rcases h.cases_getElem? hi with hf | ⟨c, w, rfl, hw⟩ | hw
    · exact .inl ⟨hf, hk⟩
    · have hlt := (List.getElem?_eq_some_iff.1 hw).1
      refine .inr (.inl ⟨c, w, by rw [Nat.zero_add], ?_, hlt⟩)
      rwa [List.getElem?_append_left hlt]
    · exact .inr (.inr (.inl hw))
  · rw [List.getElem?_append_right hk] at hi
    exact .inr (.inr (.inr (List.mem_singleton.1 (List.mem_of_getElem? hi))))

theorem keptBefore_append_length (q : Instruction → Bool) (pre rest : List Instruction) :
    keptBefore q (pre ++ rest) pre.length = pre.countP fun i => !q i := by
  rw [keptBefore, List.take_left]

/-- Taking out instructions that control falls through keeps code straight, if targets move with
the instructions that they mean. -/
theorem thin {q : Instruction → Bool} {move : Nat → Nat} (pre : List Instruction)
    (h : Straight pre.length code) (hq : ∀ i, q i → i.fallsThrough)
    (hmove : ∀ t ≤ (pre ++ code).length, move t = keptBefore q (pre ++ code) t) :
    Straight (move pre.length)
      ((code.filter fun i => !q i).map (Instruction.mapTarget move)) := by
  generalize hpos : pre.length = pos at h
  induction h generalizing pre with
  | nil => exact .nil
  | @cons pos i code hi _ ih =>
    subst hpos
    have hshift : pre ++ i :: code = (pre ++ [i]) ++ code := by simp
    have hone : move (pre.length + 1) = move pre.length + if q i then 0 else 1 := by
      rw [hmove pre.length (by simp), keptBefore_append_length, hmove _ (by simp), hshift]
      have hlen : pre.length + 1 = (pre ++ [i]).length := by simp
      rw [hlen, keptBefore_append_length, List.countP_append]
      cases hqi : q i <;> simp [hqi]
    have hrest := ih (pre ++ [i]) (by rwa [← hshift]) (by simp)
    rw [hone] at hrest
    rcases hqi : q i with _ | _
    · rw [List.filter_cons_of_pos (by simp [hqi]), List.map_cons,
        Instruction.mapTarget_of_fallsThrough move hi]
      simp only [hqi, Bool.false_eq_true, if_false] at hrest
      exact .cons hi hrest
    · rw [List.filter_cons_of_neg (by simp [hqi])]
      simpa only [hqi, if_true, Nat.add_zero] using hrest
  | @guarded pos c v code _ ih =>
    subst hpos
    let pair : List Instruction := [.branch c (pre.length + 2), .throw v]
    have hshift : pre ++ .branch c (pre.length + 2) :: .throw v :: code =
        (pre ++ pair) ++ code := by
      simp [pair]
    have hbranch : q (.branch c (pre.length + 2)) = false := by
      by_contra hc
      cases hq _ (by simpa using hc)
    have hthrow : q (.throw v) = false := by
      by_contra hc
      cases hq _ (by simpa using hc)
    have htwo : move (pre.length + 2) = move pre.length + 2 := by
      rw [hmove pre.length (by simp), keptBefore_append_length, hmove _ (by simp), hshift]
      have hlen : pre.length + 2 = (pre ++ pair).length := by simp [pair]
      rw [hlen, keptBefore_append_length, List.countP_append]
      simp [pair, hbranch, hthrow]
    have hrest := ih (pre ++ pair) (by rwa [← hshift]) (by simp [pair])
    rw [htwo] at hrest
    rw [List.filter_cons_of_pos (by simp [hbranch]), List.filter_cons_of_pos (by simp [hthrow])]
    simp only [List.map_cons, Instruction.mapTarget, htwo]
    exact .guarded hrest

end Straight

/-- Every branch of the code passes over the throw behind it and over nothing else. -/
def PassesThrows (code : List Instruction) : Prop :=
  ∀ k c t, code[k]? = some (.branch c t) →
    t = k + 2 ∧ t < code.length ∧ ∃ v, code[k + 1]? = some (.throw v)

theorem Straight.passesThrows {code : List Instruction} {v : Option Operand} (h : Straight 0 code) :
    PassesThrows (code ++ [.ret v]) := by
  intro k c t hk
  rcases h.cases_ending hk with ⟨hf, _⟩ | ⟨c', w, hb, hw, hlt⟩ | ⟨w, ht⟩ | hr
  · cases hf
  · cases hb
    exact ⟨rfl, by rw [List.length_append, List.length_singleton]; omega, w, hw⟩
  · cases ht
  · cases hr

/-! ## Runs -/

namespace Body

/-- A run through the body that has passed the instructions at the positions `ks`, in this order,
and is at position `k`. -/
inductive Run (b : Body) : List Nat → Nat → Prop
  | start : Run b [] 0
  | go {ks : List Nat} {k l : Nat} {i : Instruction} :
    Run b ks k → b.code[k]? = some i → l ∈ i.next k → Run b (ks ++ [k]) l

end Body

namespace Straight

variable {b : Body} {code : List Instruction} {v : Option Operand} {ks : List Nat} {k : Nat}

/-- What a run through straight code has passed. -/
theorem passes (h : Straight 0 code) (hb : b.code = code ++ [.ret v]) (hr : b.Run ks k) :
    k < b.code.length ∧ ks.length ≤ k ∧
      ∀ j < k, j ∈ ks ∨ ∃ w, b.code[j]? = some (.throw w) := by
  have hlen : b.code.length = code.length + 1 := by simp [hb]
  induction hr with
  | start => exact ⟨by omega, Nat.le_refl 0, fun j hj => absurd hj (Nat.not_lt_zero j)⟩
  | @go ks k l i _ hi hl ih =>
    obtain ⟨_, hks, hpass⟩ := ih
    have hnow : ∀ j < k + 1, j ∈ ks ++ [k] ∨ ∃ w, b.code[j]? = some (.throw w) := by
      intro j hj
      rcases Nat.lt_succ_iff_lt_or_eq.1 hj with hj | rfl
      · exact (hpass j hj).imp_left (List.mem_append_left _)
      · exact .inl (by simp)
    have hks' : (ks ++ [k]).length ≤ k + 1 := by simpa using hks
    rw [hb] at hi
    rcases h.cases_ending hi with ⟨hf, hk⟩ | ⟨c, w, rfl, hw, hk⟩ | ⟨w, rfl⟩ | rfl
    · rw [Instruction.next_of_fallsThrough hf, List.mem_singleton] at hl
      subst hl
      exact ⟨by omega, hks', hnow⟩
    · simp only [Instruction.next, List.mem_cons, List.not_mem_nil, or_false] at hl
      rcases hl with rfl | rfl
      · exact ⟨by omega, hks', hnow⟩
      · refine ⟨by omega, by omega, fun j hj => ?_⟩
        -- The instruction that the branch passes over is the throw.
        rcases Nat.lt_succ_iff_lt_or_eq.1 hj with hj | rfl
        · exact hnow j hj
        · exact .inr ⟨w, by rw [hb]; exact hw⟩
    · cases hl
    · cases hl

/-- A run through straight code stops at a throw or at the end. -/
theorem stops (h : Straight 0 code) (hb : b.code = code ++ [.ret v]) (hr : b.Run ks k)
    (hstop : ∀ i l, b.code[k]? = some i → l ∉ i.next k) :
    b.code[k]? = some (.ret v) ∨ ∃ w, b.code[k]? = some (.throw w) := by
  obtain ⟨i, hi⟩ : ∃ i, b.code[k]? = some i := ⟨_, List.getElem?_eq_getElem (h.passes hb hr).1⟩
  have hnext : i.next k = [] := List.eq_nil_iff_forall_not_mem.2 fun l => hstop i l hi
  rw [hi]
  rw [hb] at hi
  rcases h.cases_ending hi with ⟨hf, _⟩ | ⟨c, w, rfl, _⟩ | ⟨w, rfl⟩ | rfl
  · rw [Instruction.next_of_fallsThrough hf] at hnext
    cases hnext
  · cases hnext
  · exact .inr ⟨w, rfl⟩
  · exact .inl rfl

/-- A variable that a run reads has been given a value on the way. -/
theorem reads_written (h : Straight 0 code) (hb : b.code = code ++ [.ret v])
    (hd : Defines [] b.code) (hr : b.Run ks k) {i : Instruction} (hi : b.code[k]? = some i)
    {x : VarId} (hx : x ∈ i.reads) :
    ∃ j ∈ ks, ∃ i', b.code[j]? = some i' ∧ i'.written? = some x := by
  rcases hd.exists_write hi hx with hk | ⟨j, hj, i', hi', hw⟩
  · cases hk
  · rcases (h.passes hb hr).2.2 j hj with hj | ⟨w, hthrow⟩
    · exact ⟨j, hj, i', hi', hw⟩
    · cases hi'.symm.trans hthrow
      cases hw

end Straight

/-! ## Tidying -/

theorem survivors_concat (code : List Instruction) (i : Instruction) :
    survivors (code ++ [i]) = (code.filter fun j => !j.isNop) ++ [i] := by
  induction code with
  | nil => rfl
  | cons j code ih =>
    obtain ⟨k, rest, hrest⟩ : ∃ k rest, code ++ [i] = k :: rest := by
      cases code <;> exact ⟨_, _, rfl⟩
    rw [List.cons_append, hrest, survivors, ← hrest, ih]
    cases hj : j.isNop <;> simp [hj]

theorem survivorsBefore_concat (code : List Instruction) (i : Instruction) {t : Nat}
    (ht : t ≤ code.length) :
    survivorsBefore (code ++ [i]) t = keptBefore Instruction.isNop code t := by
  induction code generalizing t with
  | nil =>
    cases Nat.le_zero.1 ht
    rfl
  | cons j code ih =>
    cases t with
    | zero => rfl
    | succ t =>
      obtain ⟨k, rest, hrest⟩ : ∃ k rest, code ++ [i] = k :: rest := by
        cases code <;> exact ⟨_, _, rfl⟩
      have iht := ih (Nat.le_of_succ_le_succ ht)
      unfold keptBefore at iht ⊢
      rw [List.cons_append, hrest, survivorsBefore, ← hrest, iht, List.take_succ_cons]
      cases hj : j.isNop <;> simp [hj]

/-- The tidied form of straight code that ends with a return is of the same kind. -/
theorem Straight.tidy {b : Body} {code : List Instruction} {v : Option Operand}
    (h : Straight 0 code) (hb : b.code = code ++ [.ret v]) :
    ∃ code', b.tidy.code = code' ++ [.ret (v.map (Operand.mapVars b.renumbering))] ∧
      Straight 0 code' ∧ .nop ∉ code' := by
  have hnop : ∀ i : Instruction, i.isNop → i.fallsThrough := by
    intro i hi
    cases i with
    | nop => rfl
    | _ => cases hi
  obtain ⟨kept, hkept, hs, hn⟩ : ∃ kept, b.dropNops.code = kept ++ [.ret v] ∧ Straight 0 kept ∧
      .nop ∉ kept := by
    unfold Body.dropNops
    simp only [hb, survivors_concat]
    split
    · next hl =>
      have hall : (code.filter fun j => !j.isNop) = code := by
        refine List.filter_eq_self.2 (List.length_filter_eq_length_iff.1 ?_)
        simpa using hl
      refine ⟨code, hb, h, fun hmem => ?_⟩
      rw [← hall] at hmem
      simp [Instruction.isNop] at hmem
    · refine ⟨_, List.map_append, ?_, ?_⟩
      · have hthin := h.thin [] hnop fun t ht => survivorsBefore_concat code (.ret v) ht
        rwa [List.length_nil, survivorsBefore_concat code _ (Nat.zero_le _)] at hthin
      · simp only [List.mem_map, List.mem_filter, not_exists, not_and]
        rintro i ⟨_, hi⟩ hmap
        cases i <;> simp_all [Instruction.isNop, Instruction.mapTarget]
  refine ⟨kept.map (Instruction.mapVars b.renumbering), ?_, hs.mapVars _, ?_⟩
  · simp only [Body.tidy, Body.renumber, Body.declared_dropNops, Body.usedVars_dropNops, hkept,
      List.map_append]
    rfl
  · simp only [List.mem_map, not_exists, not_and]
    rintro i hi hmap
    cases i <;> simp_all [Instruction.mapVars]

end Standin
