import Mathlib.Logic.Function.Basic
import Mathlib.Logic.Relation
import Standin.Proofs.Order
import Standin.Proofs.Typing

/-!
# Which exits a run can take

Whether a branch is taken depends on numbers. A run that follows the numbers in the variables
(`Body.Advances`), where one field holds the same number throughout, has only one way through a
stand-in: all its branches ask the one variable that the guard was loaded into. If the guard is not
zero, every throw is passed over and the stand-in returns; if it is zero, the run ends at the first
throw. So of all the types that a stand-in throws only the first can really be thrown
(`standIn_leaves`).
-/

namespace Standin

open Draft

/-! ## Runs that follow numbers -/

/-- The number that an operand stands for, where `ρ` are the numbers in the variables. -/
def Operand.number? (ρ : VarId → Int32) : Operand → Option Int32
  | var x => some (ρ x)
  | const (.int n) => some n
  | const _ => none

/-- The number that an expression may come to if the field `g` holds `n`. Only copies and loads of
the field are looked into. -/
def Expr.MayBe (g : FieldRef) (n : Int32) (ρ : VarId → Int32) : Expr → Int32 → Prop
  | use v, m => ∀ k, v.number? ρ = some k → m = k
  | staticField f, m => f = g → m = n
  | _, _ => True

theorem Expr.exists_mayBe (g : FieldRef) (n : Int32) (ρ : VarId → Int32) (e : Expr) :
    ∃ m, e.MayBe g n ρ m := by
  cases e with
  | use v => exact ⟨(v.number? ρ).getD 0, fun k hk => by rw [hk, Option.getD_some]⟩
  | staticField f => exact ⟨n, fun _ => rfl⟩
  | _ => exact ⟨0, trivial⟩

namespace Body

variable {b : Body} {g : FieldRef} {n : Int32}

/-- One step of a run that is at a position, with numbers in the variables, while the field `g`
holds `n`. A branch is taken if its condition is not zero. -/
inductive Advances (b : Body) (g : FieldRef) (n : Int32) :
    Nat × (VarId → Int32) → Nat × (VarId → Int32) → Prop
  | pass {k : Nat} {ρ : VarId → Int32} {i : Instruction} : b.code[k]? = some i →
    i.fallsThrough → i.written? = none → Advances b g n (k, ρ) (k + 1, ρ)
  | receive {k : Nat} {ρ : VarId → Int32} {x : VarId} {source : Incoming} {m : Int32} :
    b.code[k]? = some (.bind x source) → Advances b g n (k, ρ) (k + 1, Function.update ρ x m)
  | write {k : Nat} {ρ : VarId → Int32} {x : VarId} {e : Expr} {m : Int32} :
    b.code[k]? = some (.assign (.var x) e) → e.MayBe g n ρ m →
    Advances b g n (k, ρ) (k + 1, Function.update ρ x m)
  | enter {k t : Nat} {ρ : VarId → Int32} {c : Operand} : b.code[k]? = some (.branch c t) →
    c.number? ρ = some 0 → Advances b g n (k, ρ) (k + 1, ρ)
  | skip {k t : Nat} {ρ : VarId → Int32} {c : Operand} {m : Int32} :
    b.code[k]? = some (.branch c t) → c.number? ρ = some m → m ≠ 0 → Advances b g n (k, ρ) (t, ρ)
  | goto {k t : Nat} {ρ : VarId → Int32} : b.code[k]? = some (.goto t) →
    Advances b g n (k, ρ) (t, ρ)

/-- A run from the state `σ` may leave the method by the instruction `i`. -/
def LeavesFrom (b : Body) (g : FieldRef) (n : Int32) (σ : Nat × (VarId → Int32))
    (i : Instruction) : Prop :=
  ∃ τ, Relation.ReflTransGen (b.Advances g n) σ τ ∧ b.code[τ.1]? = some i ∧ i.next τ.1 = []

/-- While the field `g` holds `n`, the body is left by the instruction `i` and by no other one,
whatever the variables hold at first. -/
def LeavesBy (b : Body) (g : FieldRef) (n : Int32) (i : Instruction) : Prop :=
  ∀ ρ j, b.LeavesFrom g n (0, ρ) j ↔ j = i

/-- A step goes where the instruction leads. -/
theorem Advances.mem_next {σ τ : Nat × (VarId → Int32)} (h : b.Advances g n σ τ) :
    ∃ i, b.code[σ.1]? = some i ∧ τ.1 ∈ i.next σ.1 := by
  cases h with
  | pass hi hf _ => exact ⟨_, hi, by simp [Instruction.next_of_fallsThrough hf]⟩
  | receive hi => exact ⟨_, hi, by simp [Instruction.next]⟩
  | write hi _ => exact ⟨_, hi, by simp [Instruction.next]⟩
  | enter hi _ => exact ⟨_, hi, by simp [Instruction.next]⟩
  | skip hi _ _ => exact ⟨_, hi, by simp [Instruction.next]⟩
  | goto hi => exact ⟨_, hi, by simp [Instruction.next]⟩

theorem leavesFrom_of_exit {k : Nat} {ρ : VarId → Int32} {i j : Instruction}
    (hi : b.code[k]? = some i) (hexit : i.next k = []) :
    b.LeavesFrom g n (k, ρ) j ↔ j = i := by
  constructor
  · rintro ⟨τ, hτ, hj, _⟩
    rcases hτ.cases_head with rfl | ⟨σ, hσ, _⟩
    · exact Option.some.inj (hj.symm.trans hi)
    · obtain ⟨i', hi', hl⟩ := hσ.mem_next
      cases hi.symm.trans hi'
      rw [hexit] at hl
      cases hl
  · rintro rfl
    exact ⟨(k, ρ), .refl, hi, hexit⟩

theorem leavesFrom_of_inner {k : Nat} {ρ : VarId → Int32} {i j : Instruction}
    (hi : b.code[k]? = some i) (hinner : i.next k ≠ []) :
    b.LeavesFrom g n (k, ρ) j ↔ ∃ σ, b.Advances g n (k, ρ) σ ∧ b.LeavesFrom g n σ j := by
  constructor
  · rintro ⟨τ, hτ, hj, hexit⟩
    rcases hτ.cases_head with rfl | ⟨σ, hσ, hrest⟩
    · cases hi.symm.trans hj
      exact absurd hexit hinner
    · exact ⟨σ, hσ, τ, hrest, hj, hexit⟩
  · rintro ⟨σ, hσ, τ, hτ, hj, hexit⟩
    exact ⟨τ, .head hσ hτ, hj, hexit⟩

/-- The variable gets its values from the field only. -/
def Loads (b : Body) (g : FieldRef) (x : VarId) : Prop :=
  ∀ o ∈ b.origins x, o = .value (.staticField g)

/-- An instruction that control falls through: the run goes on behind it, and what was loaded from
the field is there, now as before. -/
theorem Advances.of_fallsThrough {k : Nat} {ρ : VarId → Int32} {σ : Nat × (VarId → Int32)}
    {i : Instruction} {known : List VarId} (h : b.Advances g n (k, ρ) σ) (hi : b.code[k]? = some i)
    (hf : i.fallsThrough) (hρ : ∀ y ∈ known, b.Loads g y → ρ y = n) :
    ∃ ρ', σ = (k + 1, ρ') ∧
      ∀ y ∈ i.written?.toList ++ known, b.Loads g y → ρ' y = n := by
  have hupdate : ∀ x m, (b.Loads g x → m = n) → ∀ y ∈ x :: known, b.Loads g y →
      Function.update ρ x m y = n := by
    intro x m hm y hy hl
    by_cases hyx : y = x
    · rw [hyx, Function.update_self]
      exact hm (hyx ▸ hl)
    · rw [Function.update_of_ne hyx]
      exact hρ y ((List.mem_cons.1 hy).resolve_left hyx) hl
  have hmem := List.mem_of_getElem? hi
  cases h with
  | pass hi' _ hw =>
    cases hi.symm.trans hi'
    rw [hw]
    exact ⟨ρ, rfl, hρ⟩
  | @receive _ _ x source m hi' =>
    cases hi.symm.trans hi'
    refine ⟨_, rfl, hupdate x m fun hl => ?_⟩
    cases hl _ (Body.mem_origins.2 ⟨_, hmem, rfl⟩)
  | @write _ _ x e m hi' hm =>
    cases hi.symm.trans hi'
    refine ⟨_, rfl, hupdate x m fun hl => ?_⟩
    cases hl _ (Body.mem_origins.2 ⟨_, hmem, rfl⟩)
    exact hm rfl
  | enter hi' _ | skip hi' _ _ | goto hi' =>
    cases hi.symm.trans hi'
    cases hf

theorem exists_advance {k : Nat} (ρ : VarId → Int32) {i : Instruction} (hi : b.code[k]? = some i)
    (hf : i.fallsThrough) : ∃ σ, b.Advances g n (k, ρ) σ := by
  rcases hw : i.written? with _ | x
  · exact ⟨_, .pass hi hf hw⟩
  · cases i with
    | bind x source => exact ⟨_, .receive (m := 0) hi⟩
    | assign dest e =>
      cases dest with
      | var x =>
        obtain ⟨m, hm⟩ := e.exists_mayBe g n ρ
        exact ⟨_, .write hi hm⟩
      | _ => cases hw
    | _ => cases hw

theorem advances_branch {k t : Nat} {ρ : VarId → Int32} {c : Operand} {m : Int32}
    (hi : b.code[k]? = some (.branch c t)) (hc : c.number? ρ = some m)
    (σ : Nat × (VarId → Int32)) :
    b.Advances g n (k, ρ) σ ↔ σ = (if m = 0 then k + 1 else t, ρ) := by
  constructor
  · intro h
    cases h with
    | pass hi' hf _ =>
      cases hi.symm.trans hi'
      cases hf
    | enter hi' hc' =>
      cases hi.symm.trans hi'
      cases hc.symm.trans hc'
      rfl
    | skip hi' hc' hm =>
      cases hi.symm.trans hi'
      cases hc.symm.trans hc'
      rw [if_neg hm]
    | receive hi' | write hi' _ | goto hi' => cases hi.symm.trans hi'
  · rintro rfl
    by_cases hm : m = 0
    · rw [if_pos hm]
      exact .enter hi (hm ▸ hc)
    · rw [if_neg hm]
      exact .skip hi hc hm

end Body

/-! ## Straight code -/

/-- The instruction by which straight code is left that ends by returning `v`, if all its branches
ask for the number `n`. -/
def exitOf (n : Int32) (code : List Instruction) (v : Option Operand) : Instruction :=
  if n = 0 then (code.filterMap Instruction.thrown?).head?.elim (.ret v) .throw else .ret v

theorem exitOf_cons {i : Instruction} (hi : i.thrown? = none) (n : Int32)
    (code : List Instruction) (v : Option Operand) :
    exitOf n (i :: code) v = exitOf n code v := by
  rw [exitOf, List.filterMap_cons_none hi, exitOf]

theorem exitOf_throw (n : Int32) (w : Operand) (code : List Instruction) (v : Option Operand) :
    exitOf n (.throw w :: code) v = if n = 0 then .throw w else exitOf n code v := by
  unfold exitOf
  split <;> rfl

/-- A run through straight code whose branches ask variables that the field was loaded into. -/
theorem Straight.leavesFrom_iff {b : Body} {g : FieldRef} {n : Int32} {pos : Nat}
    {code : List Instruction} {v : Option Operand} {known : List VarId} {ρ : VarId → Int32}
    (h : Straight pos code) (hcode : b.code.drop pos = code ++ [.ret v])
    (hasks : ∀ c t, .branch c t ∈ code → ∃ y, c = .var y ∧ b.Loads g y)
    (hdefines : Defines known (code ++ [.ret v])) (hρ : ∀ y ∈ known, b.Loads g y → ρ y = n)
    (j : Instruction) : b.LeavesFrom g n (pos, ρ) j ↔ j = exitOf n code v := by
  have hget : ∀ {pos : Nat} {rest : List Instruction} {l : Nat}, b.code.drop pos = rest →
      b.code[pos + l]? = rest[l]? := by
    rintro pos _ l rfl
    exact List.getElem?_drop.symm
  induction h generalizing known ρ with
  | @nil pos =>
    have hi : b.code[pos]? = some (.ret v) := hget (l := 0) hcode
    rw [Body.leavesFrom_of_exit hi rfl]
    simp [exitOf]
  | @cons pos i code hf _ ih =>
    have hi : b.code[pos]? = some i := hget (l := 0) hcode
    have hrest : b.code.drop (pos + 1) = code ++ [.ret v] := by
      rw [← List.drop_drop, hcode]
      rfl
    have hthrown : i.thrown? = none := by
      cases i with
      | throw => cases hf
      | _ => rfl
    have hstep : ∀ σ, b.Advances g n (pos, ρ) σ →
        (b.LeavesFrom g n σ j ↔ j = exitOf n code v) := by
      intro σ hσ
      obtain ⟨ρ', rfl, hρ'⟩ := hσ.of_fallsThrough hi hf hρ
      exact ih hrest (fun c t hc => hasks c t (List.mem_cons_of_mem _ hc)) hdefines.2 hρ'
    rw [Body.leavesFrom_of_inner hi (by simp [Instruction.next_of_fallsThrough hf]),
      exitOf_cons hthrown]
    constructor
    · rintro ⟨σ, hσ, hj⟩
      exact (hstep σ hσ).1 hj
    · intro hj
      obtain ⟨σ, hσ⟩ := Body.exists_advance ρ hi hf
      exact ⟨σ, hσ, (hstep σ hσ).2 hj⟩
  | @guarded pos c w code _ ih =>
    have hi : b.code[pos]? = some (.branch c (pos + 2)) := hget (l := 0) hcode
    have hthrow : b.code[pos + 1]? = some (.throw w) := hget (l := 1) hcode
    have hrest : b.code.drop (pos + 2) = code ++ [.ret v] := by
      rw [← List.drop_drop, hcode]
      rfl
    -- The variable that the branch asks has its value by now, and it is the number in the field.
    obtain ⟨y, rfl, hy⟩ := hasks c _ List.mem_cons_self
    have hn : (Operand.var y).number? ρ = some n :=
      congrArg some (hρ y (hdefines.1 (List.mem_singleton.2 rfl)) hy)
    rw [Body.leavesFrom_of_inner hi (by simp [Instruction.next]), exitOf_cons rfl, exitOf_throw]
    simp only [Body.advances_branch hi hn, exists_eq_left]
    by_cases h0 : n = 0
    · rw [if_pos h0, if_pos h0]
      exact Body.leavesFrom_of_exit hthrow rfl
    · rw [if_neg h0, if_neg h0]
      refine ih hrest (fun c t hc => hasks c t ?_) hdefines.2.2 hρ
      exact List.mem_cons_of_mem _ (List.mem_cons_of_mem _ hc)

/-! ## The guard of a stand-in -/

section Blocks

variable {a : Abstraction} {g : FieldRef} {d : Draft} {pos : Nat} {seen : List String}

/-- Every branch of a block asks the guard. -/
theorem Block.guard_of_branch {s : Step} {b : List Instruction} (hb : Block a g d pos seen s b)
    {c : Operand} {t : Nat} (hi : .branch c t ∈ b) : ∃ y, c = .var y ∧ d.guard = some y := by
  have hfalls : ¬(Instruction.branch c t).fallsThrough := nofun
  have hprep : ∀ {q : List Instruction}, (∀ i ∈ q, Preparation a d i) → .branch c t ∉ q :=
    fun hq hi => hfalls (hq _ hi).fallsThrough
  have hkeep : ∀ {x : VarId} {k : Instruction}, d.Keeps a x k → .branch c t ≠ k := by
    rintro x _ hk rfl
    exact hfalls hk.fallsThrough
  have hinit : ∀ {cls : String} {init : Option MethodRef},
      .branch c t ∉ initializerCall seen cls init :=
    fun hi => hfalls (fallsThrough_of_initializerCall hi)
  cases hb with
  | @mayThrow t' q l x y hq _ hy hl =>
    simp only [List.mem_append, List.mem_cons, List.not_mem_nil, or_false, Instruction.branch.injEq,
      reduceCtorEq, hprep hq, false_or] at hi
    rcases hi with hi | ⟨rfl, _⟩
    · rcases hl with rfl | rfl
      · cases hi
      · cases List.mem_singleton.1 hi
    · exact ⟨y, rfl, hy⟩
  | superCall hq _ | statement hq _ | droppedResult hq _ _ | retValue hq _ =>
    simp [hprep hq] at hi
  | keep hk => exact absurd (List.mem_singleton.1 hi) (hkeep hk)
  | create _ hq _ hk => simp [hprep hq, hinit, hkeep hk] at hi
  | createArray _ hk => simp [hkeep hk] at hi
  | runInitializer => exact absurd hi hinit
  | keptResult hq _ _ _ _ hk => simp [hprep hq, hkeep hk] at hi
  | retVoid => cases List.mem_singleton.1 hi

end Blocks

namespace Drafted

variable {o : Options} {p : Program} {s : Subject} {e : Effects}
  {supers exceptions : List MethodRef} {d : Draft} {code : List Instruction}

theorem guard_of_branch (h : Drafted o p s e supers exceptions d code) {c : Operand} {t : Nat}
    (hi : .branch c t ∈ d.body.code) : ∃ y, c = .var y ∧ d.guard = some y := by
  have hcode : d.body.code = Subject.bindings 0 s.arrivals ++ code := h.code_eq
  rw [hcode] at hi
  rcases List.mem_append.1 hi with hi | hi
  · obtain ⟨_, _, hb⟩ := Subject.eq_bind_of_mem_bindings hi
    cases hb
  · obtain ⟨_, _, _, _, hb, hmem, _⟩ := h.blocks.exists_of_mem hi
    exact hb.guard_of_branch hmem

/-- The branches of the tidied body ask a variable that the guard was loaded into. -/
theorem loads_of_branch (h : Drafted o p s e supers exceptions d code) {c : Operand} {t : Nat}
    (hi : .branch c t ∈ d.body.tidy.code) :
    ∃ y, c = .var y ∧ d.body.tidy.Loads o.guard y := by
  obtain ⟨j, hj, f, hb⟩ := Body.exists_of_mem_code_tidy hi
  cases j with
  | branch c' t' =>
    cases hb
    obtain ⟨y, rfl, hy⟩ := h.guard_of_branch hj
    refine ⟨d.body.renumbering y, rfl, fun origin ho => ?_⟩
    have hused := h.sound.inScope.mem_usedVars hj (List.mem_singleton.2 rfl)
    rw [h.sound.inScope.origins_tidy hused, (h.sound.guard y hy).2] at ho
    exact List.mem_singleton.1 ho
  | _ => cases hb

theorem leavesBy (h : Drafted o p s e supers exceptions d code) :
    ∃ v, ∀ n, d.body.tidy.LeavesBy o.guard n
      (if n = 0 then d.body.tidy.thrown.head?.elim (.ret v) .throw else .ret v) := by
  obtain ⟨init, v, hcode, hstraight, _⟩ := h.tidy_code
  have hthrown : d.body.tidy.thrown = init.filterMap Instruction.thrown? := by
    rw [Body.thrown, hcode, List.filterMap_append]
    exact List.append_nil _
  have hasks : ∀ c t, .branch c t ∈ init → ∃ y, c = .var y ∧ d.body.tidy.Loads o.guard y := by
    intro c t hc
    exact h.loads_of_branch (t := t) (hcode ▸ List.mem_append_left _ hc)
  have hdefines : Defines [] (init ++ [.ret v]) := hcode ▸ Defines.tidy h.ready.defines
  refine ⟨v, fun n ρ j => ?_⟩
  rw [hthrown]
  exact hstraight.leavesFrom_iff hcode hasks hdefines nofun j

end Drafted

/-- How a stand-in is left: it returns, unless the guard is zero and there is something to throw. -/
theorem leavesBy_of_standIn {o : Options} {p : Program} {m : MethodRef} {st : StandIn}
    (h : (o.standIn p m).outcome = .ok st) :
    ∃ v, (∀ n, n ≠ 0 → st.body.LeavesBy o.guard n (.ret v)) ∧
      (st.effects.throwables.find? ValueType.isReferenceLike = none →
        st.body.LeavesBy o.guard 0 (.ret v)) ∧
      ∀ t, st.effects.throwables.find? ValueType.isReferenceLike = some t →
        ∃ x, st.body.typeOf? x = some t ∧ st.body.LeavesBy o.guard 0 (.throw (.var x)) := by
  obtain ⟨s, _, _, d, _, _, _, hd, hbody⟩ := standIn_eq_ok h
  obtain ⟨v, hv⟩ := hd.leavesBy
  have htypes := hd.wellTyped.tidy.thrown
  rw [← hbody] at hv htypes
  have hzero := hv 0
  rw [if_pos rfl] at hzero
  refine ⟨v, fun n hn => ?_, ?_, ?_⟩
  · have hother := hv n
    rwa [if_neg hn] at hother
  · rw [← List.head?_filter, List.head?_eq_none_iff]
    intro hnone
    rw [hnone, List.forall₂_nil_left_iff] at htypes
    rwa [htypes] at hzero
  · intro t
    rw [← List.head?_filter, List.head?_eq_some_iff]
    rintro ⟨ts, hts⟩
    rw [hts, List.forall₂_cons_left_iff] at htypes
    obtain ⟨_, _, ⟨x, rfl, hx⟩, _, hthrown⟩ := htypes
    rw [hthrown] at hzero
    exact ⟨x, hx, hzero⟩

theorem find?_of_thrown {o : Options} {p : Program} {m : MethodRef} {st : StandIn}
    (h : (o.standIn p m).outcome = .ok st) {n : Int32} {ρ : VarId → Int32} {x : VarId}
    {t : ValueType} (hx : st.body.LeavesFrom o.guard n (0, ρ) (.throw (.var x)))
    (ht : st.body.typeOf? x = some t) :
    st.effects.throwables.find? ValueType.isReferenceLike = some t := by
  obtain ⟨v, hret, hnone, hsome⟩ := leavesBy_of_standIn h
  by_cases hn : n = 0
  · subst hn
    rcases hfind : st.effects.throwables.find? ValueType.isReferenceLike with _ | t'
    · cases (hnone hfind ρ _).1 hx
    · obtain ⟨x', hx', hleaves⟩ := hsome t' hfind
      cases (hleaves ρ _).1 hx
      exact hx'.symm.trans ht
  · cases (hret n hn ρ _).1 hx

/-- While the guard is not zero, a stand-in returns. While it is zero, the stand-in throws an object
of the first type that is thrown and is not primitive, if there is one. So no other type is ever
thrown. -/
theorem standIn_leaves {o : Options} {p : Program} {m : MethodRef} {st : StandIn}
    (h : (o.standIn p m).outcome = .ok st) :
    ∃ v, (∀ n, n ≠ 0 → st.body.LeavesBy o.guard n (.ret v)) ∧
      (st.effects.throwables.find? ValueType.isReferenceLike = none →
        st.body.LeavesBy o.guard 0 (.ret v)) ∧
      (∀ t, st.effects.throwables.find? ValueType.isReferenceLike = some t →
        ∃ x, st.body.typeOf? x = some t ∧ st.body.LeavesBy o.guard 0 (.throw (.var x))) ∧
      ∀ t, (∃ n ρ x, st.body.LeavesFrom o.guard n (0, ρ) (.throw (.var x)) ∧
          st.body.typeOf? x = some t) ↔
        st.effects.throwables.find? ValueType.isReferenceLike = some t := by
  obtain ⟨v, hret, hnone, hsome⟩ := leavesBy_of_standIn h
  refine ⟨v, hret, hnone, hsome, fun t => ⟨?_, fun ht => ?_⟩⟩
  · rintro ⟨n, ρ, x, hx, ht⟩
    exact find?_of_thrown h hx ht
  · obtain ⟨x, hx, hleaves⟩ := hsome t ht
    exact ⟨0, fun _ => 0, x, (hleaves _ _).2 rfl, hx⟩

namespace Sample

/-- A method that throws its first argument or its second. -/
def throwing : Program where
  classes :=
    [library "A" none [method "run" [.reference "E", .reference "F"] true (some
      ⟨[⟨"e", .reference "E"⟩, ⟨"f", .reference "F"⟩],
        [.bind 0 (.parameter 0), .bind 1 (.parameter 1), .throw (.var 0), .throw (.var 1)], []⟩)]]
  distinct := by decide

/-- The method of `throwing`. -/
def throwingMethod : MethodRef :=
  ⟨"A", "run", [.reference "E", .reference "F"], .void⟩

end Sample

theorem standIn_leaves_throwing :
    ∃ st, ((Sample.options .perUnit).standIn Sample.throwing Sample.throwingMethod).outcome =
        .ok st ∧
      ∃ v, (∀ n, n ≠ 0 → st.body.LeavesBy .guard n (.ret v)) ∧
        (st.effects.throwables.find? ValueType.isReferenceLike = none →
          st.body.LeavesBy .guard 0 (.ret v)) ∧
        (∀ t, st.effects.throwables.find? ValueType.isReferenceLike = some t →
          ∃ x, st.body.typeOf? x = some t ∧ st.body.LeavesBy .guard 0 (.throw (.var x))) ∧
        ∀ t, (∃ n ρ x, st.body.LeavesFrom .guard n (0, ρ) (.throw (.var x)) ∧
            st.body.typeOf? x = some t) ↔
          st.effects.throwables.find? ValueType.isReferenceLike = some t :=
  ⟨_, rfl, standIn_leaves (o := Sample.options .perUnit) (p := Sample.throwing)
    (m := Sample.throwingMethod) rfl⟩

/-- The method throws objects of two types, and its stand-in throws none of the second. -/
theorem standIn_second_unthrown :
    ∃ st, ((Sample.options .perUnit).standIn Sample.throwing Sample.throwingMethod).outcome =
        .ok st ∧
      st.effects.throwables = [.reference "E", .reference "F"] ∧
      ∀ n ρ x, st.body.LeavesFrom .guard n (0, ρ) (.throw (.var x)) →
        st.body.typeOf? x ≠ some (.reference "F") := by
  obtain ⟨st, hst, hthrown⟩ :
      ∃ st, ((Sample.options .perUnit).standIn Sample.throwing Sample.throwingMethod).outcome =
          .ok st ∧ st.effects.throwables = [.reference "E", .reference "F"] :=
    ⟨_, rfl, rfl⟩
  refine ⟨st, hst, hthrown, fun n ρ x hx ht => ?_⟩
  have hfirst := find?_of_thrown hst hx ht
  rw [hthrown] at hfirst
  exact absurd hfirst (by decide)

end Standin
