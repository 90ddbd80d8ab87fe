import Mathlib.Logic.Relation
import Mathlib.Order.Monotone.Basic
import Standin.Proofs.Alike

/-!
# What a body executes

Control goes from an instruction to where the instruction leads or, out of the range of a handler,
to the entry of the handler (`Body.Step`). Instructions that do nothing are passed unseen; of every
other one the trace shows what it is, but for the number of its target, and which handlers cover it
(`Body.Executes`). Taking out the instructions that do nothing moves each position to that of the
next instruction that stays, and each stage of an execution goes along (`Body.Goes.thinned`,
`Body.Goes.of_thinned`), so both bodies have the same traces (`dropNops_executes`).
-/

namespace Standin

/-- The instruction at position `k` is in the range of the handler. -/
def Handler.covers (h : Handler) (k : Nat) : Bool :=
  h.start ≤ k && k < h.stop

/-- What is seen of an executed instruction: the instruction with its target left open, and for each
handler its exception and whether it covers the instruction. -/
structure Firing where
  instruction : Instruction
  handlers : List (String × Bool)
deriving DecidableEq, Repr

namespace Body

/-- What is seen when the instruction `i` is executed at position `k`. -/
def firing (b : Body) (k : Nat) (i : Instruction) : Firing :=
  ⟨i.bare, b.handlers.map fun h => (h.exception, h.covers k)⟩

/-- From the instruction at position `k` control may go to another position, or nowhere. -/
inductive Step (b : Body) (k : Nat) : Option Nat → Prop
  | next {i : Instruction} {l : Nat} : b.code[k]? = some i → l ∈ i.next k → Step b k (some l)
  | leave {i : Instruction} : b.code[k]? = some i → i.next k = [] → Step b k none
  | handle {i : Instruction} {h : Handler} : b.code[k]? = some i → i ≠ .nop → h ∈ b.handlers →
    h.covers k → Step b k (some h.entry)

/-- Control comes from one position to another through instructions that do nothing. -/
abbrev Falls (b : Body) : Nat → Nat → Prop :=
  Relation.ReflTransGen fun k l => b.code[k]? = some .nop ∧ b.Step k (some l)

/-- A stage of an execution, from where it goes on to where it goes on next: an instruction is
executed, or the end of the code is reached. What is over stays so. -/
inductive Goes (b : Body) : Option Nat → Option Firing → Option Nat → Prop
  | executes {k l : Nat} {i : Instruction} {y : Option Nat} : b.Falls k l → b.code[l]? = some i →
    i ≠ .nop → b.Step l y → Goes b (some k) (some (b.firing l i)) y
  | stops {k l : Nat} : b.Falls k l → b.code.length ≤ l → Goes b (some k) none none
  | ended : Goes b none none none

/-- The body may execute the sequence of instructions, which is infinite, or goes on without any
after the last one. -/
def Executes (b : Body) (firings : Nat → Option Firing) : Prop :=
  ∃ pos : Nat → Option Nat, pos 0 = some 0 ∧ ∀ n, b.Goes (pos n) (firings n) (pos (n + 1))

end Body

/-! ## Positions that stay -/

/-- The instruction at position `k` is not taken out. -/
def Stays (code : List Instruction) (k : Nat) : Prop :=
  ∃ i, code[k]? = some i ∧ (i = .nop → k + 1 = code.length)

section Stays

variable {code : List Instruction} {k l : Nat}

theorem stays_succ {i j : Instruction} {rest : List Instruction} :
    Stays (i :: j :: rest) (k + 1) ↔ Stays (j :: rest) k := by
  simp [Stays]

theorem stays_zero {i j : Instruction} {rest : List Instruction} :
    Stays (i :: j :: rest) 0 ↔ i.isNop = false := by
  cases i <;> simp [Stays, Instruction.isNop]

theorem not_stays (h : code.length ≤ k) : ¬Stays code k := by
  rintro ⟨i, hi, _⟩
  rw [List.getElem?_eq_none h] at hi
  cases hi

/-- With an instruction that stays the new position grows by one; any other keeps it. -/
theorem survivorsBefore_step : ∀ (code : List Instruction) (k : Nat),
    (Stays code k → survivorsBefore code (k + 1) = survivorsBefore code k + 1 ∧
        (survivors code)[survivorsBefore code k]? = code[k]?) ∧
      (¬Stays code k → survivorsBefore code (k + 1) = survivorsBefore code k)
  | [], k => by
    refine ⟨fun h => absurd h (not_stays (Nat.zero_le k)), fun _ => ?_⟩
    cases k <;> rfl
  | [i], 0 => ⟨fun _ => ⟨rfl, rfl⟩, fun h => absurd ⟨i, rfl, fun _ => rfl⟩ h⟩
  | [i], k + 1 => by
    refine ⟨fun h => absurd h (not_stays ?_), fun _ => rfl⟩
    simp
  | i :: j :: rest, 0 => by
    rw [stays_zero]
    refine ⟨fun hi => ?_, fun hi => ?_⟩
    · simp [survivorsBefore, survivors, hi]
    · simp [survivorsBefore, hi]
  | i :: j :: rest, k + 1 => by
    have ih := survivorsBefore_step (j :: rest) k
    rw [stays_succ]
    rcases hi : i.isNop with _ | _
    · simpa [survivorsBefore, survivors, hi] using ih
    · simpa [survivorsBefore, survivors, hi] using ih

theorem survivorsBefore_succ (h : Stays code k) :
    survivorsBefore code (k + 1) = survivorsBefore code k + 1 :=
  ((survivorsBefore_step code k).1 h).1

theorem getElem?_survivors (h : Stays code k) :
    (survivors code)[survivorsBefore code k]? = code[k]? :=
  ((survivorsBefore_step code k).1 h).2

theorem survivorsBefore_monotone (code : List Instruction) : Monotone (survivorsBefore code) := by
  refine monotone_nat_of_le_succ fun k => ?_
  by_cases h : Stays code k
  · rw [survivorsBefore_succ h]
    omega
  · rw [(survivorsBefore_step code k).2 h]

theorem survivorsBefore_lt_iff (h : Stays code k) :
    survivorsBefore code k < survivorsBefore code l ↔ k < l := by
  constructor
  · intro hlt
    by_contra hl
    have := survivorsBefore_monotone code (Nat.not_lt.1 hl)
    omega
  · intro hl
    have := survivorsBefore_monotone code hl
    rw [survivorsBefore_succ h] at this
    omega

theorem survivorsBefore_zero (code : List Instruction) : survivorsBefore code 0 = 0 := by
  cases code <;> rfl

theorem survivorsBefore_of_length_le :
    ∀ {code : List Instruction} {k : Nat}, code.length ≤ k →
      survivorsBefore code k = (survivors code).length
  | [], k, _ => by cases k <;> rfl
  | [i], 0, h => by simp at h
  | [i], k + 1, _ => rfl
  | i :: j :: rest, 0, h => by simp at h
  | i :: j :: rest, k + 1, h => by
    have ih : survivorsBefore (j :: rest) k = (survivors (j :: rest)).length :=
      survivorsBefore_of_length_le (Nat.le_of_succ_le_succ h)
    rcases hi : i.isNop with _ | _ <;> simp [survivorsBefore, survivors, hi, ih]

end Stays

/-! ## Execution without instructions that do nothing -/

namespace Instruction

variable {move : Nat → Nat} {k : Nat}

theorem next_mapTarget (i : Instruction) (h : move (k + 1) = move k + 1) :
    (i.mapTarget move).next (move k) = (i.next k).map move := by
  cases i <;> simp [mapTarget, next, h]

theorem mapTarget_eq_nop {i : Instruction} : i.mapTarget move = .nop ↔ i = .nop := by
  cases i <;> simp [mapTarget]

end Instruction

namespace Body

/-- The body without the instructions that do nothing, every target moved. -/
def thinned (b : Body) : Body :=
  { b with
    code := (survivors b.code).map (Instruction.mapTarget (survivorsBefore b.code))
    handlers := b.handlers.map (Handler.mapTargets (survivorsBefore b.code)) }

variable {b : Body} {k l : Nat} {i : Instruction} {x y : Option Nat} {e : Option Firing}

theorem dropNops_eq (b : Body) :
    b.dropNops = b ∧ survivors b.code = b.code ∨ b.dropNops = b.thinned := by
  unfold dropNops
  simp only
  split
  · next h => exact .inl ⟨rfl, (survivors_sublist b.code).eq_of_length h⟩
  · exact .inr rfl

theorem stays_of_ne_nop (hi : b.code[k]? = some i) (hn : i ≠ .nop) : Stays b.code k :=
  ⟨i, hi, fun h => absurd h hn⟩

theorem getElem?_thinned (h : Stays b.code k) :
    b.thinned.code[survivorsBefore b.code k]? =
      b.code[k]?.map (Instruction.mapTarget (survivorsBefore b.code)) := by
  rw [thinned, List.getElem?_map, getElem?_survivors h]

theorem length_thinned (h : b.code.length ≤ k) :
    survivorsBefore b.code k = b.thinned.code.length := by
  rw [survivorsBefore_of_length_le h, thinned, List.length_map]

theorem covers_mapTargets (h : Stays b.code k) (c : Handler) :
    (c.mapTargets (survivorsBefore b.code)).covers (survivorsBefore b.code k) = c.covers k := by
  rw [Bool.eq_iff_iff]
  simp only [Handler.covers, Handler.mapTargets, Bool.and_eq_true, decide_eq_true_eq, ← Nat.not_lt,
    survivorsBefore_lt_iff h]

theorem firing_thinned (h : Stays b.code k) (i : Instruction) :
    b.thinned.firing (survivorsBefore b.code k) (i.mapTarget (survivorsBefore b.code)) =
      b.firing k i := by
  rw [firing, firing, thinned, Instruction.bare_mapTarget, List.map_map]
  congr 1
  refine List.map_congr_left fun c _ => ?_
  rw [Function.comp_apply, covers_mapTargets h]
  rfl

/-- Steps from where an instruction stays. -/
theorem step_thinned (h : Stays b.code k) {y' : Option Nat} :
    b.thinned.Step (survivorsBefore b.code k) y' ↔
      ∃ y, y' = y.map (survivorsBefore b.code) ∧ b.Step k y := by
  obtain ⟨i, hi, _⟩ := id h
  have hnext := Instruction.next_mapTarget i (survivorsBefore_succ h)
  have hget := getElem?_thinned h
  rw [hi, Option.map_some] at hget
  constructor
  · intro hstep
    cases hstep with
    | next hi' hl =>
      cases hget.symm.trans hi'
      rw [hnext] at hl
      obtain ⟨l, hmem, rfl⟩ := List.mem_map.1 hl
      exact ⟨some l, rfl, .next hi hmem⟩
    | leave hi' hl =>
      cases hget.symm.trans hi'
      rw [hnext, List.map_eq_nil_iff] at hl
      exact ⟨none, rfl, .leave hi hl⟩
    | handle hi' hn hc hcovers =>
      cases hget.symm.trans hi'
      obtain ⟨c, hmem, rfl⟩ := List.mem_map.1 hc
      rw [covers_mapTargets h] at hcovers
      exact ⟨some c.entry, rfl, .handle hi (mt Instruction.mapTarget_eq_nop.2 hn) hmem hcovers⟩
  · rintro ⟨y, rfl, hstep⟩
    cases hstep with
    | next hi' hl =>
      cases hi.symm.trans hi'
      refine .next hget ?_
      rw [hnext]
      exact List.mem_map_of_mem hl
    | leave hi' hl =>
      cases hi.symm.trans hi'
      refine .leave hget ?_
      rw [hnext, hl]
      rfl
    | @handle _ c hi' hn hc hcovers =>
      cases hi.symm.trans hi'
      refine .handle (h := c.mapTargets (survivorsBefore b.code)) hget
        (mt Instruction.mapTarget_eq_nop.1 hn) (List.mem_map_of_mem hc) ?_
      rwa [covers_mapTargets h]

/-- Every position falls to one whose instruction stays, or behind the end, and the new position is
the same. -/
theorem exists_falls (b : Body) (k : Nat) :
    ∃ l, b.Falls k l ∧ survivorsBefore b.code l = survivorsBefore b.code k ∧
      (Stays b.code l ∨ b.code.length ≤ l) := by
  induction hn : b.code.length - k generalizing k with
  | zero => exact ⟨k, .refl, rfl, .inr (Nat.le_of_sub_eq_zero hn)⟩
  | succ n ih =>
    by_cases h : Stays b.code k
    · exact ⟨k, .refl, rfl, .inl h⟩
    · obtain ⟨i, hi⟩ : ∃ i, b.code[k]? = some i := ⟨_, List.getElem?_eq_getElem (by omega)⟩
      have hnop : i = .nop := by
        by_contra hne
        exact h (stays_of_ne_nop hi hne)
      subst hnop
      obtain ⟨l, hfalls, hl, hstays⟩ := ih (k + 1) (by omega)
      refine ⟨l, .head ⟨hi, .next hi (by simp [Instruction.next])⟩ hfalls, ?_, hstays⟩
      rw [hl, (survivorsBefore_step b.code k).2 h]

theorem exists_step (hi : b.code[k]? = some i) : ∃ y, b.Step k y := by
  rcases hnext : i.next k with _ | ⟨l, ls⟩
  · exact ⟨none, .leave hi hnext⟩
  · exact ⟨some l, .next hi (hnext ▸ List.mem_cons_self)⟩

/-- An execution is never stuck. -/
theorem exists_goes (b : Body) (x : Option Nat) : ∃ e y, b.Goes x e y := by
  rcases x with _ | k
  · exact ⟨none, none, .ended⟩
  · obtain ⟨l, hfalls, _, ⟨i, hi, hlast⟩ | hlen⟩ := b.exists_falls k
    · by_cases hn : i = .nop
      · -- The last instruction may do nothing; behind it is the end.
        subst hn
        refine ⟨none, none, .stops (hfalls.tail ⟨hi, .next hi List.mem_cons_self⟩) ?_⟩
        exact (hlast rfl).ge
      · obtain ⟨y, hstep⟩ := exists_step hi
        exact ⟨_, y, .executes hfalls hi hn hstep⟩
    · exact ⟨none, none, .stops hfalls hlen⟩

theorem exists_executes (b : Body) : ∃ firings, b.Executes firings := by
  choose e y hgoes using b.exists_goes
  let pos : Nat → Option Nat := fun n => y^[n] (some 0)
  refine ⟨fun n => e (pos n), pos, rfl, fun n => ?_⟩
  have hsucc : pos (n + 1) = y (pos n) := Function.iterate_succ_apply' y n (some 0)
  rw [hsucc]
  exact hgoes (pos n)

theorem eq_succ_of_step_nop (hi : b.code[k]? = some .nop) (h : b.Step k (some l)) : l = k + 1 := by
  cases h with
  | next hi' hl =>
    cases hi.symm.trans hi'
    exact List.mem_singleton.1 hl
  | handle hi' hn =>
    cases hi.symm.trans hi'
    exact absurd rfl hn

theorem Falls.thinned (h : b.Falls k l) :
    b.thinned.Falls (survivorsBefore b.code k) (survivorsBefore b.code l) := by
  induction h with
  | refl => exact .refl
  | @tail l m _ hstep ih =>
    obtain ⟨hnop, hstep⟩ := hstep
    by_cases h : Stays b.code l
    · refine ih.tail ⟨?_, (step_thinned h).2 ⟨_, rfl, hstep⟩⟩
      rw [getElem?_thinned h, hnop]
      rfl
    · rw [eq_succ_of_step_nop hnop hstep, (survivorsBefore_step b.code l).2 h]
      exact ih

/-- What is found at a new position is what the code comes to from the old one. -/
theorem exists_of_getElem?_thinned {i' : Instruction}
    (h : b.thinned.code[survivorsBefore b.code k]? = some i') :
    ∃ l i, b.Falls k l ∧ survivorsBefore b.code l = survivorsBefore b.code k ∧ Stays b.code l ∧
      b.code[l]? = some i ∧ i' = i.mapTarget (survivorsBefore b.code) := by
  obtain ⟨l, hfalls, hl, hstays | hlen⟩ := b.exists_falls k
  · rw [← hl, getElem?_thinned hstays] at h
    obtain ⟨i, hi, rfl⟩ := Option.map_eq_some_iff.1 h
    exact ⟨l, i, hfalls, hl, hstays, hi, rfl⟩
  · rw [← hl, length_thinned hlen, List.getElem?_eq_none (Nat.le_refl _)] at h
    cases h

theorem Falls.of_thinned {k' l' : Nat} (h : b.thinned.Falls k' l')
    (hk : k' = survivorsBefore b.code k) : ∃ l, l' = survivorsBefore b.code l ∧ b.Falls k l := by
  induction h with
  | refl => exact ⟨k, hk, .refl⟩
  | tail _ hstep ih =>
    obtain ⟨l, rfl, hfalls⟩ := ih
    obtain ⟨hnop, hstep⟩ := hstep
    obtain ⟨m, i, hfalls', hm, hstays, hi, hi'⟩ := exists_of_getElem?_thinned hnop
    rw [Instruction.mapTarget_eq_nop.1 hi'.symm] at hi
    rw [← hm, step_thinned hstays] at hstep
    obtain ⟨y, hy, hstep⟩ := hstep
    obtain ⟨n, rfl, hn⟩ := Option.map_eq_some_iff.1 hy.symm
    exact ⟨n, hn.symm, (hfalls.trans hfalls').tail ⟨hi, hstep⟩⟩

theorem Goes.thinned (h : b.Goes x e y) :
    b.thinned.Goes (x.map (survivorsBefore b.code)) e (y.map (survivorsBefore b.code)) := by
  cases h with
  | executes hfalls hi hn hstep =>
    have hstays := stays_of_ne_nop hi hn
    rw [← firing_thinned hstays]
    refine .executes hfalls.thinned ?_ (mt Instruction.mapTarget_eq_nop.1 hn)
      ((step_thinned hstays).2 ⟨_, rfl, hstep⟩)
    rw [getElem?_thinned hstays, hi]
    rfl
  | stops hfalls hlen => exact .stops hfalls.thinned (length_thinned hlen).ge
  | ended => exact .ended

theorem Goes.of_thinned {y' : Option Nat}
    (h : b.thinned.Goes (x.map (survivorsBefore b.code)) e y') :
    ∃ y, y' = y.map (survivorsBefore b.code) ∧ b.Goes x e y := by
  rcases x with _ | k
  · cases h
    exact ⟨none, rfl, .ended⟩
  · cases h with
    | executes hfalls hi hn hstep =>
      obtain ⟨l, rfl, hl⟩ := hfalls.of_thinned rfl
      obtain ⟨m, i, hm, heq, hstays, hi', rfl⟩ := exists_of_getElem?_thinned hi
      rw [← heq, step_thinned hstays] at hstep
      obtain ⟨y, rfl, hstep⟩ := hstep
      rw [← heq, firing_thinned hstays]
      exact ⟨y, rfl, .executes (hl.trans hm) hi' (mt Instruction.mapTarget_eq_nop.2 hn) hstep⟩
    | stops hfalls hlen =>
      obtain ⟨l, rfl, hl⟩ := hfalls.of_thinned rfl
      obtain ⟨m, hm, heq, hstays | hend⟩ := b.exists_falls l
      · obtain ⟨i, hi, _⟩ := id hstays
        have hget := getElem?_thinned hstays
        rw [heq, List.getElem?_eq_none hlen, hi] at hget
        cases hget
      · exact ⟨none, rfl, .stops (hl.trans hm) hend⟩

theorem executes_thinned {firings : Nat → Option Firing} :
    b.thinned.Executes firings ↔ b.Executes firings := by
  constructor
  · rintro ⟨r, hzero, hr⟩
    -- The positions of the thinned body are pulled back one after another.
    have hback : ∀ n (x : { x : Option Nat // r n = x.map (survivorsBefore b.code) }),
        ∃ y : { y : Option Nat // r (n + 1) = y.map (survivorsBefore b.code) },
          b.Goes x.1 (firings n) y.1 := by
      rintro n ⟨x, hx⟩
      have hgoes := hr n
      rw [hx] at hgoes
      obtain ⟨y, hy, hgoes⟩ := hgoes.of_thinned
      exact ⟨⟨y, hy⟩, hgoes⟩
    choose next hnext using hback
    let start : { x : Option Nat // r 0 = x.map (survivorsBefore b.code) } :=
      ⟨some 0, by rw [hzero, Option.map_some, survivorsBefore_zero]⟩
    let q : (n : Nat) → { x : Option Nat // r n = x.map (survivorsBefore b.code) } :=
      fun n => Nat.rec start next n
    exact ⟨fun n => (q n).1, rfl, fun n => hnext n (q n)⟩
  · rintro ⟨q, hzero, hq⟩
    refine ⟨fun n => (q n).map (survivorsBefore b.code), ?_, fun n => (hq n).thinned⟩
    simp [hzero, survivorsBefore_zero]

end Body

/-- A nop stays only at the end. -/
theorem nop_survivors : ∀ {code : List Instruction} {k : Nat},
    (survivors code)[k]? = some .nop → k + 1 = (survivors code).length
  | [], k, h => by simp [survivors] at h
  | [i], 0, _ => rfl
  | [i], k + 1, h => by simp [survivors] at h
  | i :: j :: rest, k, h => by
    rcases hi : i.isNop with _ | _
    · rw [survivors, if_neg (by simp [hi])] at h ⊢
      cases k with
      | zero =>
        cases h
        cases hi
      | succ k => rw [List.length_cons, nop_survivors h]
    · rw [survivors, if_pos hi] at h ⊢
      exact nop_survivors h

theorem Body.nop_dropNops {b : Body} {k : Nat} (h : b.dropNops.code[k]? = some .nop) :
    k + 1 = b.dropNops.code.length := by
  rcases b.dropNops_eq with ⟨heq, hcode⟩ | heq <;> rw [heq] at h ⊢
  · rw [← hcode] at h ⊢
    exact nop_survivors h
  · rw [thinned, List.getElem?_map] at h
    obtain ⟨i, hi, hnop⟩ := Option.map_eq_some_iff.1 h
    rw [thinned, List.length_map]
    exact nop_survivors (Instruction.mapTarget_eq_nop.1 hnop ▸ hi)

/-- Every body may execute something. Taking out the instructions that do nothing changes neither
what this may be nor the variables, and leaves none of them but at the end. -/
theorem dropNops_executes (b : Body) :
    (∃ firings, b.Executes firings) ∧
      (∀ firings, b.dropNops.Executes firings ↔ b.Executes firings) ∧
      b.dropNops.declared = b.declared ∧
      ∀ k, b.dropNops.code[k]? = some .nop → k + 1 = b.dropNops.code.length := by
  refine ⟨b.exists_executes, fun firings => ?_, b.declared_dropNops, fun k => Body.nop_dropNops⟩
  rcases b.dropNops_eq with ⟨h, _⟩ | h <;> rw [h]
  exact Body.executes_thinned

namespace Sample

/-- Two instructions that do nothing: one that a branch leads to, and the last one. -/
def padded : Body where
  declared := [⟨"guard", .primitive .int⟩]
  code := [.branch (.var 0) 2, .throw (.const .null), .nop, .ret none, .nop]
  handlers := [⟨"java.lang.Throwable", 0, 3, 4⟩]

end Sample

theorem dropNops_executes_padded :
    Sample.padded.dropNops.code[3]? = some .nop ∧ Sample.padded.dropNops.code.length = 4 := by
  have hget : Sample.padded.dropNops.code[3]? = some .nop := rfl
  exact ⟨hget, ((dropNops_executes Sample.padded).2.2.2 3 hget).symm⟩

end Standin
