import Mathlib.Data.List.Forall2
import Standin.Proofs.Draft
import Standin.StandIn

/-!
# The code of a plan

Every step of a plan writes a block of instructions, and `Block` says which: the objects that it
needs are got ready, then the step does what it is there for, and what it makes is kept. A plan
writes the blocks of its steps one after another (`Blocks`, `blocks_run`). What holds of the code
of every stand-in is read off the blocks.
-/

namespace Standin

open Draft

/-- The type that the receiver of a call has in a stand-in; none for a static call. -/
def Call.receiverType? (c : Call) : Option ValueType :=
  if c.dispatch = .static then none
  else some (c.receiver.getD (.reference c.callee.className))

/-- The type of a value that is made or comes from a call. -/
def Expr.madeType? : Expr → Option ValueType
  | new c => some (.reference c)
  | newArray t _ => some t
  | invoke i =>
    match i.callee.result with
    | .value t => some t
    | .void => none
  | _ => none

/-- The invocation makes a call with objects of the place. -/
structure Draft.Makes (d : Draft) (c : Call) (i : Invocation) : Prop where
  dispatch : i.dispatch = c.dispatch
  callee : i.callee = c.callee
  args : List.Forall₂ d.Supplies c.callee.params i.args
  static : c.receiverType? = none → i.receiver = none
  receiver : ∀ t, c.receiverType? = some t → ∃ x, i.receiver = some x ∧ d.Offers t x

/-- The call of a static initializer, unless the class has been initialized. -/
def initializerCall (seen : List String) (className : String) (initializer : Option MethodRef) :
    List Instruction :=
  if className ∈ seen then []
  else initializer.toList.map fun m => .invoke ⟨.static, m, none, []⟩

/-- The classes that are initialized after a step, if those in `seen` were before. -/
def Step.marks (seen : List String) : Step → List String
  | create _ c (some _) => addNew seen c
  | runInitializer c _ => addNew seen c
  | _ => seen

/-- The block that a step writes from position `pos` on, after the classes in `seen` have been
initialized. The draft `d` may be any later one. -/
inductive Block (a : Abstraction) (g : FieldRef) (d : Draft) (pos : Nat) (seen : List String) :
    Step → List Instruction → Prop
  | superCall {m : MethodRef} {q : List Instruction} {args : List Operand} :
    (∀ i ∈ q, Preparation a d i) → List.Forall₂ d.Supplies m.params args →
    Block a g d pos seen (.superCall m) (q ++ [.invoke ⟨.special, m, some 0, args⟩])
  | keep {x : VarId} {k : Instruction} :
    d.Keeps a x k → Block a g d pos seen (.keep x) [k]
  | create {m : MethodRef} {c : String} {init : Option MethodRef} {x : VarId}
    {q : List Instruction} {args : List Operand} {k : Instruction} :
    d.typeOf? x = some (.reference c) → (∀ i ∈ q, Preparation a d i) →
    List.Forall₂ d.Supplies m.params args → d.Keeps a x k →
    Block a g d pos seen (.create m c init)
      (.assign (.var x) (.new c) :: q ++ .invoke ⟨.special, m, some x, args⟩ ::
        initializerCall seen c init ++ [k])
  | createArray {t : ValueType} {x : VarId} {k : Instruction} :
    d.typeOf? x = some t → d.Keeps a x k →
    Block a g d pos seen (.createArray t) [.assign (.var x) t.arrayAllocation, k]
  | runInitializer {c : String} {m : MethodRef} :
    Block a g d pos seen (.runInitializer c m) (initializerCall seen c (some m))
  | statement {c : Call} {q : List Instruction} {i : Invocation} :
    (∀ i ∈ q, Preparation a d i) → d.Makes c i →
    Block a g d pos seen (.statement c) (q ++ [.invoke i])
  | keptResult {c : Call} {q : List Instruction} {i : Invocation} {t : ValueType} {x : VarId}
    {k : Instruction} :
    (∀ i ∈ q, Preparation a d i) → d.Makes c i → c.callee.result = .value t →
    t.isReferenceLike → d.typeOf? x = some t → d.Keeps a x k →
    Block a g d pos seen (.result c) (q ++ [.assign (.var x) (.invoke i), k])
  | droppedResult {c : Call} {q : List Instruction} {i : Invocation} :
    (∀ i ∈ q, Preparation a d i) → d.Makes c i → c.callee.result.isReferenceLike = false →
    Block a g d pos seen (.result c) (q ++ [.invoke i])
  | mayThrow {t : ValueType} {q l : List Instruction} {x y : VarId} :
    (∀ i ∈ q, Preparation a d i) → d.Offers t x → d.guard = some y →
    (l = [] ∨ l = [.assign (.var y) (.staticField g)]) →
    Block a g d pos seen (.mayThrow t)
      (q ++ l ++ [.branch (.var y) (pos + q.length + l.length + 2), .throw (.var x), .nop])
  | retVoid : Block a g d pos seen (.ret .void) [.ret none]
  | retValue {t : ValueType} {q : List Instruction} {v : Operand} :
    (∀ i ∈ q, Preparation a d i) → d.Supplies t v →
    Block a g d pos seen (.ret (.value t)) (q ++ [.ret (some v)])

/-- The code that steps write from position `pos` on, after the classes in `seen` have been
initialized. -/
inductive Blocks (a : Abstraction) (g : FieldRef) (d : Draft) :
    Nat → List String → List Step → List Instruction → Prop
  | nil {pos : Nat} {seen : List String} : Blocks a g d pos seen [] []
  | cons {pos : Nat} {seen : List String} {s : Step} {steps : List Step}
    {b code : List Instruction} :
    Block a g d pos seen s b → Blocks a g d (pos + b.length) (s.marks seen) steps code →
    Blocks a g d pos seen (s :: steps) (b ++ code)

variable {a : Abstraction} {g : FieldRef} {d d' : Draft}

theorem Blocks.exists_of_mem {pos : Nat} {seen : List String} {steps : List Step}
    {code : List Instruction} (h : Blocks a g d pos seen steps code) {i : Instruction}
    (hi : i ∈ code) : ∃ pos seen s b, Block a g d pos seen s b ∧ i ∈ b ∧ b ⊆ code := by
  induction h with
  | nil => cases hi
  | @cons pos seen s steps b code hb _ ih =>
    rcases List.mem_append.1 hi with hi | hi
    · exact ⟨pos, seen, s, b, hb, hi, List.subset_append_left b code⟩
    · obtain ⟨pos', seen', s', b', hb', hi', hsub⟩ := ih hi
      exact ⟨pos', seen', s', b', hb', hi', List.subset_append_of_subset_right b hsub⟩

theorem Blocks.exists_of_step {pos : Nat} {seen : List String} {steps : List Step}
    {code : List Instruction} (h : Blocks a g d pos seen steps code) {s : Step} (hs : s ∈ steps) :
    ∃ pos seen b, Block a g d pos seen s b ∧ b ⊆ code := by
  induction h with
  | nil => cases hs
  | @cons pos seen s' steps b code hb _ ih =>
    rcases List.mem_cons.1 hs with rfl | hs
    · exact ⟨pos, seen, b, hb, List.subset_append_left b code⟩
    · obtain ⟨pos', seen', b', hb', hsub⟩ := ih hs
      exact ⟨pos', seen', b', hb', List.subset_append_of_subset_right b hsub⟩

theorem origin?_of_initializerCall {seen : List String} {c : String} {init : Option MethodRef}
    {i : Instruction} (hi : i ∈ initializerCall seen c init) : i.origin? = none := by
  unfold initializerCall at hi
  split at hi
  · cases hi
  · obtain ⟨m, _, rfl⟩ := List.mem_map.1 hi
    rfl

/-- An instruction of a block that gives a variable its value prepares an object, keeps one, loads
the guard, or makes a value that the block keeps. -/
theorem Block.origin?_of_mem {pos : Nat} {seen : List String} {s : Step} {b : List Instruction}
    (hb : Block a g d pos seen s b) {i : Instruction} (hi : i ∈ b) :
    i.origin? = none ∨ Preparation a d i ∨ (∃ x, d.Keeps a x i) ∨
      (∃ y, d.guard = some y ∧ i = .assign (.var y) (.staticField g)) ∨
      ∃ x e t k, i = .assign (.var x) e ∧ e.madeType? = some t ∧ d.typeOf? x = some t ∧ k ∈ b ∧
        d.Keeps a x k := by
  cases hb with
  | superCall hq | statement hq | droppedResult hq | retValue hq =>
    rcases List.mem_append.1 hi with hi | hi
    · exact .inr (.inl (hq i hi))
    · rw [List.mem_singleton.1 hi]
      exact .inl rfl
  | keep hk => exact .inr (.inr (.inl ⟨_, List.mem_singleton.1 hi ▸ hk⟩))
  | @create m c init x q args k hx hq _ hk =>
    simp only [List.cons_append, List.append_assoc, List.mem_cons, List.mem_append,
      List.not_mem_nil, or_false] at hi
    rcases hi with rfl | hi | rfl | hi | rfl
    · exact .inr (.inr (.inr (.inr ⟨x, _, _, k, rfl, rfl, hx, by simp, hk⟩)))
    · exact .inr (.inl (hq i hi))
    · exact .inl rfl
    · exact .inl (origin?_of_initializerCall hi)
    · exact .inr (.inr (.inl ⟨x, hk⟩))
  | @createArray t x k hx hk =>
    simp only [List.mem_cons, List.not_mem_nil, or_false] at hi
    rcases hi with rfl | rfl
    · exact .inr (.inr (.inr (.inr ⟨x, _, _, k, rfl, rfl, hx, by simp, hk⟩)))
    · exact .inr (.inr (.inl ⟨x, hk⟩))
  | runInitializer => exact .inl (origin?_of_initializerCall hi)
  | @keptResult c q j t x k hq hj hr _ hx hk =>
    simp only [List.mem_append, List.mem_cons, List.not_mem_nil, or_false] at hi
    rcases hi with hi | rfl | rfl
    · exact .inr (.inl (hq i hi))
    · have ht : (Expr.invoke j).madeType? = some t := by
        simp only [Expr.madeType?, hj.callee, hr]
      exact .inr (.inr (.inr (.inr ⟨x, _, t, k, rfl, ht, hx, by simp, hk⟩)))
    · exact .inr (.inr (.inl ⟨x, hk⟩))
  | @mayThrow t q l x y hq _ hy hl =>
    simp only [List.mem_append, List.mem_cons, List.not_mem_nil, or_false] at hi
    rcases hi with (hi | hi) | rfl | rfl | rfl
    · exact .inr (.inl (hq i hi))
    · rcases hl with rfl | rfl
      · cases hi
      · exact .inr (.inr (.inr (.inl ⟨y, hy, List.mem_singleton.1 hi⟩)))
    all_goals exact .inl rfl
  | retVoid =>
    rw [List.mem_singleton.1 hi]
    exact .inl rfl

theorem Draft.Grows.makes (h : Grows d d') {c : Call} {i : Invocation} (hi : d.Makes c i) :
    d'.Makes c i := by
  refine ⟨hi.dispatch, hi.callee, hi.args.imp fun _ _ => h.supplies, hi.static, ?_⟩
  intro t ht
  obtain ⟨x, hx, ho⟩ := hi.receiver t ht
  exact ⟨x, hx, h.offers ho⟩

theorem Draft.Grows.block (h : Grows d d') {pos : Nat} {seen : List String} {s : Step}
    {b : List Instruction} (hb : Block a g d pos seen s b) : Block a g d' pos seen s b := by
  cases hb with
  | superCall hq ha =>
    exact .superCall (fun i hi => h.preparation (hq i hi)) (ha.imp fun _ _ => h.supplies)
  | keep hk => exact .keep (h.keeps hk)
  | create hx hq ha hk =>
    exact .create (h.typeOf? hx) (fun i hi => h.preparation (hq i hi))
      (ha.imp fun _ _ => h.supplies) (h.keeps hk)
  | createArray hx hk => exact .createArray (h.typeOf? hx) (h.keeps hk)
  | runInitializer => exact .runInitializer
  | statement hq hi => exact .statement (fun i hi => h.preparation (hq i hi)) (h.makes hi)
  | keptResult hq hi hr ht hx hk =>
    exact .keptResult (fun i hi => h.preparation (hq i hi)) (h.makes hi) hr ht (h.typeOf? hx)
      (h.keeps hk)
  | droppedResult hq hi hr =>
    exact .droppedResult (fun i hi => h.preparation (hq i hi)) (h.makes hi) hr
  | mayThrow hq hx hy hl =>
    exact .mayThrow (fun i hi => h.preparation (hq i hi)) (h.offers hx) (h.guard _ hy) hl
  | retVoid => exact .retVoid
  | retValue hq hv => exact .retValue (fun i hi => h.preparation (hq i hi)) (h.supplies hv)

namespace Draft.Sound

theorem lt_of_offers (h : d.Sound a g) {t : ValueType} {x : VarId} (hx : d.Offers t x) :
    x < d.declared.length := by
  rcases hx with ⟨hr, _⟩ | hc
  · exact (h.representative x hr).lt
  · exact Body.lt_of_typeOf? (b := d.body) (h.casts t x hc).1

theorem lt_of_supplies (h : d.Sound a g) {t : ValueType} {v : Operand} (hv : d.Supplies t v) :
    ∀ x ∈ v.vars, x < d.declared.length := by
  intro x hx
  rcases hv.constant_or_object with ⟨p, _, rfl⟩ | ⟨y, rfl, hy⟩
  · cases hx
  · rw [List.mem_singleton.1 hx]
    exact h.lt_of_offers hy

theorem lt_of_supplied (h : d.Sound a g) {ts : List ValueType} {vs : List Operand}
    (hv : List.Forall₂ d.Supplies ts vs) :
    ∀ x ∈ vs.flatMap Operand.vars, x < d.declared.length := by
  induction hv with
  | nil => simp
  | cons hv _ ih =>
    intro x hx
    rw [List.flatMap_cons, List.mem_append] at hx
    exact hx.elim (h.lt_of_supplies hv x) (ih x)

theorem lt_of_makes (h : d.Sound a g) {c : Call} {i : Invocation} (hi : d.Makes c i) :
    ∀ x ∈ i.vars, x < d.declared.length := by
  intro x hx
  simp only [Invocation.vars, List.mem_append] at hx
  rcases hx with hx | hx
  · rcases ht : c.receiverType? with _ | t
    · rw [hi.static ht] at hx
      cases hx
    · obtain ⟨y, hy, ho⟩ := hi.receiver t ht
      rw [hy, Option.toList_some, List.mem_singleton] at hx
      exact hx ▸ h.lt_of_offers ho
  · exact h.lt_of_supplied hi.args x hx

end Draft.Sound

/-! ## Writing a step -/

section Parts

variable (a g d)

theorem construct_spec (x : VarId) (m : MethodRef) :
    Grows d (a.construct d x m) ∧
      (∃ q args, (a.construct d x m).code =
          d.code ++ (q ++ [.invoke ⟨.special, m, some x, args⟩]) ∧
        (∀ i ∈ q, Preparation a (a.construct d x m) i) ∧
        List.Forall₂ (a.construct d x m).Supplies m.params args) ∧
      (a.construct d x m).initialized = d.initialized ∧
      (d.Sound a g → x < d.declared.length → (a.construct d x m).Sound a g) := by
  obtain ⟨hp, ha⟩ := a.arguments_prepares g d m.params
  obtain ⟨q, hq, hqp⟩ := hp.code
  have hg := Grows.push (a.arguments d m.params).1
    (.invoke ⟨.special, m, some x, (a.arguments d m.params).2⟩)
  refine ⟨hp.grows.trans hg, ⟨q, _, ?_, fun i hi => hg.preparation (hqp i hi),
    ha.imp fun _ _ => hg.supplies⟩, hp.initialized, fun h hx => ?_⟩
  · rw [← List.append_assoc, ← hq]
    rfl
  · refine (hp.sound h).push rfl fun y hy => ?_
    simp only [Instruction.vars, Invocation.vars, Option.toList_some, List.singleton_append,
      List.mem_cons] at hy
    rcases hy with rfl | hy
    · exact Nat.lt_of_lt_of_le hx hp.grows.length_le
    · exact (hp.sound h).lt_of_supplied ha y hy

theorem invocation_spec (c : Call) :
    Prepares a g d (a.invocation d c).1 ∧ (a.invocation d c).1.Makes c (a.invocation d c).2 := by
  obtain ⟨hp, ha⟩ := a.arguments_prepares g d c.callee.params
  unfold Abstraction.invocation
  simp only
  split
  · next hs =>
    refine ⟨hp, hs.symm, rfl, ha, fun _ => rfl, fun t ht => ?_⟩
    simp [Call.receiverType?, hs] at ht
  · next hs =>
    obtain ⟨hp', ho⟩ := a.representativeAs_prepares g (a.arguments d c.callee.params).1
      (c.receiver.getD (.reference c.callee.className))
    refine ⟨hp.trans hp', rfl, rfl, ha.imp fun _ _ => hp'.grows.supplies, fun hn => ?_,
      fun t ht => ⟨_, rfl, ?_⟩⟩
    · simp [Call.receiverType?, hs] at hn
    · simp only [Call.receiverType?, hs, if_false, Option.some.injEq] at ht
      exact ht ▸ ho

theorem guardVar_spec :
    Grows d (d.guardVar g).1 ∧ (d.guardVar g).1.guard = some (d.guardVar g).2 ∧
      (∃ l, (d.guardVar g).1.code = d.code ++ l ∧
        (l = [] ∨ l = [.assign (.var (d.guardVar g).2) (.staticField g)])) ∧
      (d.guardVar g).1.initialized = d.initialized ∧
      (d.Sound a g → (d.guardVar g).1.Sound a g) := by
  unfold guardVar
  split
  · next x hx => exact ⟨.refl d, hx, ⟨[], by simp, .inl rfl⟩, rfl, id⟩
  · next hn =>
    have hg := Grows.assignNew d g.type (.staticField g)
    refine ⟨⟨hg.declared, hg.casts, hg.representative, fun x hx => ?_⟩, rfl, ⟨_, rfl, .inr rfl⟩,
      rfl, fun h => ?_⟩
    · rw [hn] at hx
      cases hx
    · exact (h.assignNew g.type (by simp [Expr.vars])).withGuard (typeOf?_assignNew _ _ _)
        (h.origins_new _ _)

theorem callInitializer_spec (c : String) (m : MethodRef) :
    Grows d (d.callInitializer c m) ∧
      (d.callInitializer c m).code = d.code ++ initializerCall d.initialized c (some m) ∧
      (d.callInitializer c m).initialized = addNew d.initialized c ∧
      (d.Sound a g → (d.callInitializer c m).Sound a g) := by
  unfold callInitializer markInitialized initializerCall addNew
  by_cases hc : c ∈ d.initialized
  · simp only [hc, if_true, Bool.false_eq_true, if_false, List.append_nil]
    exact ⟨.refl d, trivial, trivial, id⟩
  · simp only [hc, if_true, if_false]
    refine ⟨⟨List.prefix_refl _, List.Subset.refl _, fun _ h => h, fun _ h => h⟩, rfl, rfl,
      fun h => ?_⟩
    have hp := h.push (i := .invoke ⟨.static, m, none, []⟩) rfl (by simp [Instruction.vars,
      Invocation.vars])
    exact ⟨hp.inScope, hp.single, hp.representative, hp.casts, hp.guard⟩

theorem initialize_spec (m : MethodRef) (c : String) (init : Option MethodRef) :
    Grows d (init.elim d (d.callInitializer c)) ∧
      (init.elim d (d.callInitializer c)).code = d.code ++ initializerCall d.initialized c init ∧
      (init.elim d (d.callInitializer c)).initialized =
        (Step.create m c init).marks d.initialized ∧
      (d.Sound a g → (init.elim d (d.callInitializer c)).Sound a g) := by
  cases init with
  | none => exact ⟨.refl d, by simp [initializerCall], rfl, id⟩
  | some m => exact callInitializer_spec a g d c m

end Parts

/-- The variables that a step takes from outside are declared. -/
def Step.Within (d : Draft) : Step → Prop
  | superCall _ => 0 < d.declared.length
  | keep x => x < d.declared.length
  | _ => True

/-- What writing a step does to a draft. -/
structure Step.Emits (a : Abstraction) (g : FieldRef) (d d' : Draft) (s : Step) : Prop where
  grows : Grows d d'
  block : ∃ b, d'.code = d.code ++ b ∧ Block a g d' d.code.length d.initialized s b
  initialized : d'.initialized = s.marks d.initialized
  sound : d.Sound a g → s.Within d → d'.Sound a g

theorem emits_create (m : MethodRef) (c : String) (init : Option MethodRef) :
    (Step.create m c init).Emits a g d ((Step.create m c init).emit a g d) := by
  let d₁ := (d.assignNew (.reference c) (.new c)).1
  let x := (d.assignNew (.reference c) (.new c)).2
  let d₂ := a.construct d₁ x m
  let d₃ := init.elim d₂ (d₂.callInitializer c)
  have hg₁ : Grows d d₁ := .assignNew _ _ _
  have hx : d₁.typeOf? x = some (.reference c) := typeOf?_assignNew _ _ _
  have hxl : x < d₁.declared.length := Body.lt_of_typeOf? (b := d₁.body) hx
  obtain ⟨hg₂, ⟨q, args, hcode₂, hq, hargs⟩, hinit₂, hs₂⟩ := construct_spec a g d₁ x m
  obtain ⟨hg₃, hcode₃, hinit₃, hs₃⟩ := initialize_spec a g d₂ m c init
  obtain ⟨hg₄, ⟨k, hcode₄, hk⟩, hinit₄, _⟩ := a.store_spec d₃ x
  have hg₂₄ := hg₃.trans hg₄
  refine ⟨hg₁.trans (hg₂.trans hg₂₄), ⟨_, ?_, .create (hg₂.trans hg₂₄ |>.typeOf? hx)
    (fun i hi => hg₂₄.preparation (hq i hi)) (hargs.imp fun _ _ => hg₂₄.supplies) hk⟩, ?_, ?_⟩
  · have hseen : d₂.initialized = d.initialized := hinit₂
    calc (a.store d₃ x).code
        = d.code ++ [.assign (.var x) (.new c)] ++
            (q ++ [.invoke ⟨.special, m, some x, args⟩]) ++
            initializerCall d.initialized c init ++ [k] := by
          rw [hcode₄, hcode₃, hcode₂, hseen]
          rfl
      _ = _ := by simp
  · exact hinit₄.trans (hinit₃.trans (congrArg (Step.marks · _) hinit₂))
  · intro h _
    have h₁ : d₁.Sound a g := h.assignNew _ (by simp [Expr.vars])
    refine a.store_sound g d₃ (hs₃ (hs₂ h₁ hxl)) ?_
    exact Nat.lt_of_lt_of_le hxl (hg₂.trans hg₃).length_le

theorem emits_createArray (t : ValueType) :
    (Step.createArray t).Emits a g d ((Step.createArray t).emit a g d) := by
  let d₁ := (d.assignNew t t.arrayAllocation).1
  let x := (d.assignNew t t.arrayAllocation).2
  have hg₁ : Grows d d₁ := .assignNew _ _ _
  have hx : d₁.typeOf? x = some t := typeOf?_assignNew _ _ _
  obtain ⟨hg₂, ⟨k, hcode, hk⟩, hinit, _⟩ := a.store_spec d₁ x
  refine ⟨hg₁.trans hg₂, ⟨_, ?_, .createArray (hg₂.typeOf? hx) hk⟩, hinit, fun h _ => ?_⟩
  · have hcode₁ : d₁.code = d.code ++ [.assign (.var x) t.arrayAllocation] := rfl
    calc (a.store d₁ x).code = d.code ++ [.assign (.var x) t.arrayAllocation] ++ [k] := by
          rw [hcode, hcode₁]
      _ = _ := by simp
  · have hlen : ∀ y ∈ t.arrayAllocation.vars, y < d.declared.length := by
      simp [ValueType.arrayAllocation, Expr.vars, Operand.vars]
    exact a.store_sound g d₁ (h.assignNew t hlen) (Body.lt_of_typeOf? (b := d₁.body) hx)

theorem emits_statement (c : Call) :
    (Step.statement c).Emits a g d ((Step.statement c).emit a g d) := by
  obtain ⟨hp, hi⟩ := invocation_spec a g d c
  obtain ⟨q, hq, hqp⟩ := hp.code
  have hg := Grows.push (a.invocation d c).1 (.invoke (a.invocation d c).2)
  refine ⟨hp.grows.trans hg, ⟨_, ?_, .statement (fun i hi => hg.preparation (hqp i hi))
    (hg.makes hi)⟩, hp.initialized, fun h _ => (hp.sound h).push rfl ((hp.sound h).lt_of_makes hi)⟩
  rw [← List.append_assoc, ← hq]
  rfl

theorem emits_result (c : Call) : (Step.result c).Emits a g d ((Step.result c).emit a g d) := by
  obtain ⟨hp, hi⟩ := invocation_spec a g d c
  obtain ⟨q, hq, hqp⟩ := hp.code
  let d₁ := (a.invocation d c).1
  let i := (a.invocation d c).2
  by_cases hr : c.callee.result.isReferenceLike
  · obtain ⟨t, ht, htr⟩ : ∃ t, c.callee.result = .value t ∧ t.isReferenceLike := by
      rcases hc : c.callee.result with _ | t
      · simp [hc, ResultType.isReferenceLike, ResultType.type?] at hr
      · exact ⟨t, rfl, by simpa [hc, ResultType.isReferenceLike, ResultType.type?] using hr⟩
    have hemit : (Step.result c).emit a g d =
        a.store (d₁.assignNew t (.invoke i)).1 (d₁.assignNew t (.invoke i)).2 := by
      simp only [Step.emit, ht, htr, if_true]
      rfl
    let d₂ := (d₁.assignNew t (.invoke i)).1
    let x := (d₁.assignNew t (.invoke i)).2
    have hg₁ : Grows d₁ d₂ := .assignNew _ _ _
    have hx : d₂.typeOf? x = some t := typeOf?_assignNew _ _ _
    obtain ⟨hg₂, ⟨k, hcode, hk⟩, hinit, _⟩ := a.store_spec d₂ x
    have hg := hg₁.trans hg₂
    rw [hemit]
    refine ⟨hp.grows.trans hg, ⟨_, ?_, .keptResult (fun i hi => hg.preparation (hqp i hi))
      (hg.makes hi) ht htr (hg₂.typeOf? hx) hk⟩, hinit.trans hp.initialized, fun h _ => ?_⟩
    · have hcode₂ : d₂.code = d₁.code ++ [.assign (.var x) (.invoke i)] := rfl
      calc (a.store d₂ x).code = d.code ++ q ++ [.assign (.var x) (.invoke i)] ++ [k] := by
            rw [hcode, hcode₂, hq]
        _ = _ := by simp [i]
    · exact a.store_sound g d₂ ((hp.sound h).assignNew t ((hp.sound h).lt_of_makes hi))
        (Body.lt_of_typeOf? (b := d₂.body) hx)
  · have hemit : (Step.result c).emit a g d = d₁.push (.invoke i) := by
      rcases hc : c.callee.result with _ | t
      · simp only [Step.emit, hc]
        rfl
      · have ht : t.isReferenceLike = false := by
          simpa [hc, ResultType.isReferenceLike, ResultType.type?] using hr
        simp only [Step.emit, hc, ht, Bool.false_eq_true, if_false]
        rfl
    have hg := Grows.push d₁ (.invoke i)
    rw [hemit]
    refine ⟨hp.grows.trans hg, ⟨_, ?_, .droppedResult (fun i hi => hg.preparation (hqp i hi))
      (hg.makes hi) (by simpa using hr)⟩, hp.initialized,
      fun h _ => (hp.sound h).push rfl ((hp.sound h).lt_of_makes hi)⟩
    rw [← List.append_assoc, ← hq]
    rfl

theorem emits_mayThrow (t : ValueType) :
    (Step.mayThrow t).Emits a g d ((Step.mayThrow t).emit a g d) := by
  obtain ⟨hp, ho⟩ := a.representativeAs_prepares g d t
  obtain ⟨q, hq, hqp⟩ := hp.code
  let d₁ := (a.representativeAs d t).1
  let x := (a.representativeAs d t).2
  obtain ⟨hg₁, hy, ⟨l, hl, hload⟩, hinit, hs₁⟩ := guardVar_spec a g d₁
  let d₂ := (d₁.guardVar g).1
  let y := (d₁.guardVar g).2
  let d₃ := d₂.push (.branch (.var y) (d₂.code.length + 2))
  let d₄ := d₃.push (.throw (.var x))
  have hg₂ : Grows d₂ (d₄.push .nop) := ((Grows.push d₂ _).trans (.push d₃ _)).trans (.push d₄ _)
  have hg := hg₁.trans hg₂
  have hpos : d₂.code.length + 2 = d.code.length + q.length + l.length + 2 := by
    rw [hl, hq, List.length_append, List.length_append]
  refine ⟨hp.grows.trans hg, ⟨_, ?_, .mayThrow (fun i hi => hg.preparation (hqp i hi))
    (hg.offers ho) (hg₂.guard _ hy) hload⟩, hinit.trans hp.initialized, fun h _ => ?_⟩
  · calc (d₄.push .nop).code
        = d.code ++ q ++ l ++ [.branch (.var y) (d₂.code.length + 2), .throw (.var x), .nop] := by
          rw [← hq, ← hl]
          simp [d₄, d₃, d₂, Draft.push]
      _ = _ := by
          rw [hpos]
          simp [x, y]
  · have h₂ := hs₁ (hp.sound h)
    have hyl : y < d₂.declared.length := Body.lt_of_typeOf? (b := d₂.body) (h₂.guard y hy).1
    have hxl : x < d₃.declared.length := h₂.lt_of_offers (hg₁.offers ho)
    have h₃ : d₃.Sound a g := h₂.push rfl (by simpa [Instruction.vars, Operand.vars] using hyl)
    have h₄ : d₄.Sound a g := h₃.push rfl (by simpa [Instruction.vars, Operand.vars] using hxl)
    exact h₄.push rfl (by simp [Instruction.vars])

theorem emits_ret (r : ResultType) : (Step.ret r).Emits a g d ((Step.ret r).emit a g d) := by
  cases r with
  | void =>
    exact ⟨.push _ _, ⟨_, rfl, .retVoid⟩, rfl, fun h _ => h.push rfl (by simp [Instruction.vars])⟩
  | value t =>
    obtain ⟨hp, hv⟩ := a.valueOf_prepares g d t
    obtain ⟨q, hq, hqp⟩ := hp.code
    have hg := Grows.push (a.valueOf d t).1 (.ret (some (a.valueOf d t).2))
    refine ⟨hp.grows.trans hg, ⟨_, ?_, .retValue (fun i hi => hg.preparation (hqp i hi))
      (hg.supplies hv)⟩, hp.initialized,
      fun h _ => (hp.sound h).push rfl ((hp.sound h).lt_of_supplies hv)⟩
    rw [← List.append_assoc, ← hq]
    rfl

theorem emit_spec (s : Step) : s.Emits a g d (s.emit a g d) := by
  cases s with
  | superCall m =>
    obtain ⟨hg, ⟨q, args, hcode, hq, hargs⟩, hinit, hs⟩ := construct_spec a g d 0 m
    exact ⟨hg, ⟨_, hcode, .superCall hq hargs⟩, hinit, hs⟩
  | keep x =>
    obtain ⟨hg, ⟨k, hcode, hk⟩, hinit, _⟩ := a.store_spec d x
    exact ⟨hg, ⟨_, hcode, .keep hk⟩, hinit, fun h hx => a.store_sound g d h hx⟩
  | create m c init => exact emits_create m c init
  | createArray t => exact emits_createArray t
  | runInitializer c m =>
    obtain ⟨hg, hcode, hinit, hs⟩ := callInitializer_spec a g d c m
    exact ⟨hg, ⟨_, hcode, .runInitializer⟩, hinit, fun h _ => hs h⟩
  | statement c => exact emits_statement c
  | result c => exact emits_result c
  | mayThrow t => exact emits_mayThrow t
  | ret r => exact emits_ret r

theorem Step.Within.mono (h : Grows d d') {s : Step} (hs : s.Within d) : s.Within d' := by
  cases s with
  | superCall m => exact Nat.lt_of_lt_of_le hs h.length_le
  | keep x => exact Nat.lt_of_lt_of_le hs h.length_le
  | _ => trivial

/-- Steps write their blocks one after another, into a draft that only grows and stays sound. -/
theorem blocks_run (steps : List Step) (d : Draft) :
    Grows d (steps.foldl (Step.emit a g) d) ∧
      (∃ code, (steps.foldl (Step.emit a g) d).code = d.code ++ code ∧
        Blocks a g (steps.foldl (Step.emit a g) d) d.code.length d.initialized steps code) ∧
      (d.Sound a g → (∀ s ∈ steps, s.Within d) → (steps.foldl (Step.emit a g) d).Sound a g) := by
  induction steps generalizing d with
  | nil => exact ⟨.refl d, ⟨[], by simp, .nil⟩, fun h _ => h⟩
  | cons s steps ih =>
    have hs := emit_spec (a := a) (g := g) (d := d) s
    obtain ⟨b, hb, hblock⟩ := hs.block
    obtain ⟨hg, ⟨code, hcode, hw⟩, hsound⟩ := ih (s.emit a g d)
    rw [List.foldl_cons]
    -- The block of `s` is one of the last draft too, since the later steps only add to the draft.
    refine ⟨hs.grows.trans hg, ⟨b ++ code, ?_, .cons (hg.block hblock) ?_⟩, fun h hin => ?_⟩
    · rw [hcode, hb, List.append_assoc]
    · rwa [hb, List.length_append, hs.initialized] at hw
    · exact hsound (hs.sound h (hin s List.mem_cons_self))
        fun s' hs' => (hin s' (List.mem_cons_of_mem _ hs')).mono hs.grows

end Standin
