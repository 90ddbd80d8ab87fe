import Mathlib.Data.List.Induction
import Standin.Proofs.Draft

/-!
# Drafts under any operations

A draft may be written by any operations in any order, for one place or for several. Whatever they
are, what the draft remembers goes with what it has written (`Draft.Consistent`): a variable keeps
its declaration, the casts to a type share one instruction, the guard is loaded once, and there is
one variable that stands for all objects.

Each operation is written down with the draft before and after it (`Draft.Exchange`). The record of
a list of operations grows at its end (`Draft.record_induction`), so what is said about a whole
record follows from what one more operation adds to it.
-/

namespace Standin

namespace Draft

/-- What can be done to a draft. -/
inductive Operation
  | newVar (type : ValueType)
  | push (instruction : Instruction)
  | castTo (x : VarId) (type : ValueType)
  | allocate (type : ValueType)
  | loadField (field : FieldRef)
  | storeField (field : FieldRef) (value : Operand)
  | markInitialized (className : String)
  | pushGuarded (field : FieldRef) (instruction : Instruction)
  | representative (place : Abstraction)
  | store (place : Abstraction) (x : VarId)
deriving DecidableEq, Repr

/-- What an operation answers. -/
inductive Reply
  | var (x : VarId)
  | position (n : Nat)
  | isFirst (answer : Bool)
  | refused (error : SynthesisError)
  | done
deriving DecidableEq, Repr

/-- The reply with a variable, or with the reason why there is none. -/
def Reply.ofResult : Except SynthesisError VarId → Reply
  | .ok x => var x
  | .error error => refused error

namespace Operation

/-- The reply is a new variable, unless the operation is refused. -/
def isAllocation : Operation → Bool
  | newVar _ | allocate _ | loadField _ => true
  | _ => false

/-- The type that the operation casts to. -/
def castTarget? : Operation → Option ValueType
  | castTo _ t => some t
  | _ => none

theorem castTarget?_eq_some {q : Operation} {t : ValueType} :
    q.castTarget? = some t ↔ ∃ x, q = .castTo x t := by
  cases q <;> simp [castTarget?]

/-- The operation writes an instruction under the guard. -/
def isGuarded : Operation → Bool
  | pushGuarded _ _ => true
  | _ => false

/-- The operation asks for the variable that stands for all objects. -/
def isRepresentative : Operation → Bool
  | representative _ => true
  | _ => false

/-- The operation may choose the variable that stands for all objects. -/
def usesPlace : Operation → Bool
  | representative _ | store _ _ => true
  | _ => false

end Operation

/-- The draft after an operation, and the reply. -/
def perform (d : Draft) : Operation → Draft × Reply
  | .newVar t => ((d.newVar t).1, .var (d.newVar t).2)
  | .push i => (d.push i, .position d.code.length)
  | .castTo x t => ((d.castTo x t).1, .var (d.castTo x t).2)
  | .allocate t => ((d.allocate t).1, .ofResult (d.allocate t).2)
  | .loadField f => ((d.loadField f).1, .var (d.loadField f).2)
  | .storeField f v => (d.storeField f v, .done)
  | .markInitialized c => ((d.markInitialized c).1, .isFirst (d.markInitialized c).2)
  | .pushGuarded f i => (d.pushGuarded f i, .done)
  | .representative a => ((a.representative d).1, .var (a.representative d).2)
  | .store a x => (a.store d x, .done)

/-- An operation with the draft before and after it. -/
structure Exchange where
  before : Draft
  operation : Operation
  after : Draft
  reply : Reply
deriving DecidableEq, Repr

/-- An operation on `d`, with what comes of it. -/
def exchange (d : Draft) (q : Operation) : Exchange :=
  ⟨d, q, (d.perform q).1, (d.perform q).2⟩

section

variable (d : Draft) (q : Operation)

@[simp]
theorem exchange_before : (d.exchange q).before = d :=
  rfl

@[simp]
theorem exchange_operation : (d.exchange q).operation = q :=
  rfl

@[simp]
theorem exchange_after : (d.exchange q).after = (d.perform q).1 :=
  rfl

end

/-- The draft after operations one after another. -/
def performAll (d : Draft) (qs : List Operation) : Draft :=
  qs.foldl (fun d q => (d.perform q).1) d

/-- The operations one after another, each with the drafts before and after it. -/
def record (d : Draft) : List Operation → List Exchange
  | [] => []
  | q :: qs => d.exchange q :: record (d.perform q).1 qs

namespace Exchange

/-- The instructions that the operation has added. -/
def written (e : Exchange) : List Instruction :=
  e.after.code.drop e.before.code.length

/-- The operation has declared the variable `x`. -/
def Declares (e : Exchange) (x : VarId) : Prop :=
  e.before.typeOf? x = none ∧ ∃ t, e.after.typeOf? x = some t

/-- What has been written for the guard before a guarded instruction, which comes with two more. -/
def guardLoad (e : Exchange) : List Instruction :=
  if e.operation.isGuarded then e.written.take (e.written.length - 3) else []

/-- What has been written by a cast to `t`. -/
def castCode (t : ValueType) (e : Exchange) : List Instruction :=
  if e.operation.castTarget? = some t then e.written else []

/-- What has been written to give the variable that stands for all objects its first value. -/
def firstValueCode (e : Exchange) : List Instruction :=
  if e.operation.isRepresentative then e.written else []

end Exchange

section

variable (es : List Exchange) (d : Draft)

/-- The casts to `t` have written one instruction at most, and what is remembered for `t` is the
variable that this instruction gives its value to. -/
def CastOnce (t : ValueType) : Prop :=
  es.flatMap (Exchange.castCode t) = [] ∧ (∀ y, (t, y) ∉ d.casts) ∨
    ∃ x y, .castTo x t ∈ es.map Exchange.operation ∧
      es.flatMap (Exchange.castCode t) = [.assign (.var y) (.cast (.var x) t)] ∧
      d.typeOf? y = some t ∧ ∀ z, (t, z) ∈ d.casts ↔ z = y

/-- The guard has been loaded once at most, and each guarded instruction is passed over by a branch
on the guard to the instruction behind it, which does nothing. -/
def GuardOnce : Prop :=
  d.guard = none ∧ (∀ e ∈ es, e.operation.isGuarded = false) ∨
    ∃ g f i, d.guard = some g ∧ .pushGuarded f i ∈ es.map Exchange.operation ∧
      es.flatMap Exchange.guardLoad = [.assign (.var g) (.staticField f)] ∧
      ∀ e ∈ es, ∀ f' i', e.operation = .pushGuarded f' i' →
        e.after.code = (e.before.code ++ e.guardLoad) ++
          [.branch (.var g) ((e.before.code ++ e.guardLoad).length + 2), i', .nop]

/-- There is one variable at most that stands for all objects, and its first value has been written
once at most when it was asked for. -/
def RepresentativeOnce : Prop :=
  d.representative = none ∧ (∀ e ∈ es, e.operation.isRepresentative = false) ∨
    ∃ r t, d.representative = some r ∧ d.typeOf? r = some t ∧
      (∀ e ∈ es, e.operation.isRepresentative → e.reply = .var r) ∧
      (es.flatMap Exchange.firstValueCode = [] ∨
        ∃ a, .representative a ∈ es.map Exchange.operation ∧
          es.flatMap Exchange.firstValueCode = [.assign (.var r) a.firstValue.2])

/-- What holds of the record of any operations, and of the draft at its end. -/
structure Consistent : Prop where
  /-- Nothing that is written is taken back. -/
  appends : ∀ e ∈ es, e.after.code = e.before.code ++ e.written
  declared : ∀ e ∈ es, ∀ x, e.reply = .var x → ∃ t, e.after.typeOf? x = some t
  stays : es.Pairwise fun e e' => ∀ x t, e.after.typeOf? x = some t → e'.after.typeOf? x = some t
  /-- The reply is a new variable if it has to be one, and if anything is written for it. -/
  fresh : ∀ e ∈ es, ∀ x, e.reply = .var x →
    e.operation.isAllocation ∨ e.written ≠ [] → e.Declares x
  distinct : es.Pairwise fun e e' => ∀ x y, e.Declares x → e'.Declares y → x ≠ y
  typed : ∀ e ∈ es, ∀ x t, e.operation = .castTo x t →
    ∃ y, e.reply = .var y ∧ e.after.typeOf? y = some t
  casts : ∀ t, CastOnce es d t
  guard : GuardOnce es d
  representative : RepresentativeOnce es d
  refused : ∀ e ∈ es, ∀ error, e.reply = .refused error → e.after = e.before

end

/-! ## One operation -/

/-- The draft with one more cast, and the variable of the cast. -/
def newCast (d : Draft) (x : VarId) (t : ValueType) : Draft × VarId :=
  let (d, y) := d.assignNew t (.cast (.var x) t)
  ({ d with casts := d.casts ++ [(t, y)] }, y)

theorem casts_newCast (d : Draft) (x : VarId) (t : ValueType) :
    (d.newCast x t).1.casts = d.casts ++ [(t, d.declared.length)] :=
  rfl

/-- The draft with the guard loaded, and the variable of the guard. -/
def newGuard (d : Draft) (f : FieldRef) : Draft × VarId :=
  let (d, x) := d.loadField f
  ({ d with guard := some x }, x)

/-- The draft with an instruction that the guard `g` passes over. -/
def pushPassed (d : Draft) (g : VarId) (i : Instruction) : Draft :=
  ((d.push (.branch (.var g) (d.code.length + 2))).push i).push .nop

theorem castTo_cases (d : Draft) (x : VarId) (t : ValueType) :
    d.typeOf? x = some t ∧ d.castTo x t = (d, x) ∨
      (∃ y, (t, y) ∈ d.casts ∧ d.castTo x t = (d, y)) ∨
      (∀ y, (t, y) ∉ d.casts) ∧ d.castTo x t = d.newCast x t := by
  unfold castTo
  split
  · next ht => exact .inl ⟨ht, rfl⟩
  · split
    · next y hy => exact .inr (.inl ⟨y, mem_of_lookup hy, rfl⟩)
    · next hn =>
      refine .inr (.inr ⟨fun y hy => ?_, rfl⟩)
      simpa using List.lookup_eq_none_iff.1 hn _ hy

theorem pushGuarded_of_none {d : Draft} (hn : d.guard = none) (f : FieldRef) (i : Instruction) :
    d.pushGuarded f i = (d.newGuard f).1.pushPassed (d.newGuard f).2 i := by
  simp only [pushGuarded, guardVar, hn]
  rfl

theorem pushGuarded_of_some {d : Draft} {g : VarId} (hg : d.guard = some g) (f : FieldRef)
    (i : Instruction) : d.pushGuarded f i = d.pushPassed g i := by
  simp only [pushGuarded, guardVar, hg]
  rfl

/-- The type is looked at before anything is written, so an allocation is made or the draft stays as
it was. -/
theorem allocate_cases (d : Draft) (t : ValueType) :
    (∃ e, d.allocate t = ((d.assignNew t e).1, .ok (d.assignNew t e).2)) ∨
      ∃ error, d.allocate t = (d, .error error) := by
  unfold allocate
  rcases t.allocation with error | e
  · exact .inr ⟨error, rfl⟩
  · exact .inl ⟨e, rfl⟩

/-- What an operation leaves as it was: all but what it is for. -/
structure Advances (q : Operation) (d d' : Draft) : Prop where
  grows : Grows d d'
  code : d.code <+: d'.code
  casts : q.castTarget? = none → d'.casts = d.casts
  guard : q.isGuarded = false → d'.guard = d.guard
  representative : q.usesPlace = false → d'.representative = d.representative

namespace Advances

variable {q : Operation} {d d' d'' : Draft}

theorem refl (q : Operation) (d : Draft) : Advances q d d :=
  ⟨.refl d, List.prefix_refl _, fun _ => rfl, fun _ => rfl, fun _ => rfl⟩

theorem trans (h : Advances q d d') (h' : Advances q d' d'') : Advances q d d'' :=
  ⟨h.grows.trans h'.grows, h.code.trans h'.code, fun hq => (h'.casts hq).trans (h.casts hq),
    fun hq => (h'.guard hq).trans (h.guard hq),
    fun hq => (h'.representative hq).trans (h.representative hq)⟩

theorem push (q : Operation) (d : Draft) (i : Instruction) : Advances q d (d.push i) :=
  ⟨.push d i, List.prefix_append _ _, fun _ => rfl, fun _ => rfl, fun _ => rfl⟩

theorem assignNew (q : Operation) (d : Draft) (t : ValueType) (e : Expr) :
    Advances q d (d.assignNew t e).1 :=
  ⟨.assignNew d t e, List.prefix_append _ _, fun _ => rfl, fun _ => rfl, fun _ => rfl⟩

theorem pushPassed (q : Operation) (d : Draft) (g : VarId) (i : Instruction) :
    Advances q d (d.pushPassed g i) :=
  ((push q d _).trans (push q _ i)).trans (push q _ .nop)

theorem newCast (hq : q.castTarget? ≠ none) (d : Draft) (x : VarId) (t : ValueType) :
    Advances q d (d.newCast x t).1 :=
  (assignNew q d t (.cast (.var x) t)).trans
    ⟨⟨List.prefix_refl _, fun _ => List.mem_append_left _, fun _ h => h, fun _ h => h⟩,
      List.prefix_refl _, fun h => absurd h hq, fun _ => rfl, fun _ => rfl⟩

theorem newGuard (hq : q.isGuarded = true) (hn : d.guard = none) (f : FieldRef) :
    Advances q d (d.newGuard f).1 := by
  have hload := assignNew q d f.type (.staticField f)
  refine ⟨⟨hload.grows.declared, hload.grows.casts, hload.grows.representative, fun x hx => ?_⟩,
    hload.code, hload.casts, fun h => ?_, hload.representative⟩
  · rw [hn] at hx
    cases hx
  · rw [hq] at h
    cases h

theorem newRepresentative (hq : q.usesPlace = true) (hn : d.representative = none) (t : ValueType)
    (e : Expr) : Advances q d (Abstraction.newRepresentative d t e).1 := by
  have hnew := assignNew q d t e
  refine ⟨Abstraction.newRepresentative_grows d t e hn, hnew.code, hnew.casts, hnew.guard,
    fun h => ?_⟩
  rw [hq] at h
  cases h

theorem store (a : Abstraction) (d : Draft) (x : VarId) :
    Advances (.store a x) d (a.store d x) := by
  cases a with
  | shared f =>
    have hpush := push (.store (.shared f) x) d (.assign (.staticField f) (.use (.var x)))
    exact ⟨⟨hpush.grows.declared, hpush.grows.casts, hpush.grows.representative,
      hpush.grows.guard⟩, hpush.code, hpush.casts, hpush.guard, hpush.representative⟩
  | perUnit =>
    rcases hd : d.representative with _ | r
    · rw [Abstraction.store_perUnit_of_none d hd]
      exact newRepresentative rfl hd _ _
    · rw [Abstraction.store_perUnit_of_some d hd]
      exact push _ d _

end Advances

theorem perform_advances (d : Draft) (q : Operation) : Advances q d (d.perform q).1 := by
  cases q with
  | newVar t =>
    exact ⟨⟨List.prefix_append _ _, List.Subset.refl _, fun _ h => h, fun _ h => h⟩,
      List.prefix_refl _, fun _ => rfl, fun _ => rfl, fun _ => rfl⟩
  | push i => exact .push _ d i
  | castTo x t =>
    simp only [perform]
    rcases castTo_cases d x t with ⟨_, h⟩ | ⟨y, _, h⟩ | ⟨_, h⟩
    · rw [h]
      exact .refl _ d
    · rw [h]
      exact .refl _ d
    · rw [h]
      exact .newCast (q := .castTo x t) (Option.some_ne_none t) d x t
  | allocate t =>
    simp only [perform]
    rcases d.allocate_cases t with ⟨e, h⟩ | ⟨error, h⟩
    · rw [h]
      exact .assignNew _ d t e
    · rw [h]
      exact .refl _ d
  | loadField f => exact .assignNew _ d f.type (.staticField f)
  | storeField f v => exact .push _ d _
  | markInitialized c =>
    simp only [perform, markInitialized]
    split
    · exact .refl _ d
    · exact ⟨⟨List.prefix_refl _, List.Subset.refl _, fun _ h => h, fun _ h => h⟩,
        List.prefix_refl _, fun _ => rfl, fun _ => rfl, fun _ => rfl⟩
  | pushGuarded f i =>
    simp only [perform]
    rcases hd : d.guard with _ | g
    · rw [pushGuarded_of_none hd]
      exact (Advances.newGuard rfl hd f).trans (.pushPassed _ _ _ i)
    · rw [pushGuarded_of_some hd]
      exact .pushPassed _ d g i
  | representative a =>
    simp only [perform]
    rcases hd : d.representative with _ | r
    · rw [a.representative_of_none d hd]
      exact .newRepresentative rfl hd _ _
    · rw [a.representative_of_some d hd]
      exact .refl _ d
  | store a x => exact .store a d x

theorem typeOf?_newVar (d : Draft) (t : ValueType) :
    (d.newVar t).1.typeOf? (d.newVar t).2 = some t := by
  simp [newVar, typeOf?]

theorem typeOf?_length (d : Draft) : d.typeOf? d.declared.length = none := by
  simp [typeOf?]

theorem typeOf?_castTo {d : Draft} (hc : ∀ t y, (t, y) ∈ d.casts → d.typeOf? y = some t)
    (x : VarId) (t : ValueType) : (d.castTo x t).1.typeOf? (d.castTo x t).2 = some t := by
  rcases castTo_cases d x t with ⟨ht, h⟩ | ⟨y, hy, h⟩ | ⟨_, h⟩
  · rwa [h]
  · rw [h]
    exact hc t y hy
  · rw [h]
    exact typeOf?_assignNew d t (.cast (.var x) t)

/-- A variable in a reply was there before, and nothing has changed, or it is new. -/
theorem perform_var {d : Draft} {q : Operation} {x : VarId}
    (hc : ∀ t y, (t, y) ∈ d.casts → d.typeOf? y = some t)
    (hr : ∀ r, d.representative = some r → ∃ t, d.typeOf? r = some t)
    (h : (d.perform q).2 = .var x) :
    q.isAllocation = false ∧ (d.perform q).1 = d ∧ (∃ t, d.typeOf? x = some t) ∨
      d.typeOf? x = none ∧ ∃ t, (d.perform q).1.typeOf? x = some t := by
  cases q with
  | newVar t =>
    obtain rfl : (d.newVar t).2 = x := Reply.var.inj h
    exact .inr ⟨d.typeOf?_length, t, d.typeOf?_newVar t⟩
  | castTo y t =>
    simp only [perform, Reply.var.injEq] at h ⊢
    rcases castTo_cases d y t with ⟨ht, hy⟩ | ⟨z, hz, hy⟩ | ⟨_, hy⟩
    · rw [hy] at h ⊢
      exact .inl ⟨rfl, rfl, t, h ▸ ht⟩
    · rw [hy] at h ⊢
      exact .inl ⟨rfl, rfl, t, h ▸ hc t z hz⟩
    · rw [hy] at h ⊢
      rw [← h]
      exact .inr ⟨d.typeOf?_length, t, typeOf?_assignNew d t (.cast (.var y) t)⟩
  | allocate t =>
    simp only [perform] at h ⊢
    rcases d.allocate_cases t with ⟨e, ht⟩ | ⟨error, ht⟩
    · rw [ht] at h ⊢
      obtain rfl : (d.assignNew t e).2 = x := Reply.var.inj h
      exact .inr ⟨d.typeOf?_length, t, typeOf?_assignNew d t e⟩
    · rw [ht] at h
      cases h
  | loadField f =>
    obtain rfl : (d.loadField f).2 = x := Reply.var.inj h
    exact .inr ⟨d.typeOf?_length, f.type, typeOf?_assignNew d f.type _⟩
  | representative a =>
    simp only [perform, Reply.var.injEq] at h ⊢
    rcases hd : d.representative with _ | r
    · rw [a.representative_of_none d hd] at h ⊢
      rw [← h]
      exact .inr ⟨d.typeOf?_length, _, typeOf?_assignNew d _ a.firstValue.2⟩
    · rw [a.representative_of_some d hd] at h ⊢
      exact .inl ⟨rfl, rfl, h ▸ hr r hd⟩
  | push | storeField | markInitialized | pushGuarded | store => cases h

theorem perform_refused {d : Draft} {q : Operation} {error : SynthesisError}
    (h : (d.perform q).2 = .refused error) : (d.perform q).1 = d := by
  cases q with
  | allocate t =>
    simp only [perform] at h ⊢
    rcases d.allocate_cases t with ⟨e, ht⟩ | ⟨error, ht⟩
    · rw [ht] at h
      cases h
    · rw [ht]
  | _ => cases h

/-! ## Records -/

theorem performAll_concat (d : Draft) (qs : List Operation) (q : Operation) :
    d.performAll (qs ++ [q]) = ((d.performAll qs).perform q).1 :=
  List.foldl_append

theorem record_concat (d : Draft) (qs : List Operation) (q : Operation) :
    d.record (qs ++ [q]) = d.record qs ++ [(d.performAll qs).exchange q] := by
  induction qs generalizing d with
  | nil => rfl
  | cons q' qs ih => exact congrArg (d.exchange q' :: ·) (ih (d.perform q').1)

theorem record_induction {P : List Exchange → Draft → Prop} (start : P [] .empty)
    (next : ∀ es d q, P es d → P (es ++ [d.exchange q]) (d.perform q).1) (qs : List Operation) :
    P (record .empty qs) (performAll .empty qs) := by
  induction qs using List.reverseRecOn with
  | nil => exact start
  | append_singleton qs q ih =>
    rw [record_concat, performAll_concat]
    exact next _ _ q ih

theorem exists_of_mem_record {d : Draft} {qs : List Operation} {e : Exchange}
    (h : e ∈ d.record qs) : ∃ qs' q, e = (d.performAll qs').exchange q := by
  induction qs using List.reverseRecOn with
  | nil => cases h
  | append_singleton qs q ih =>
    rw [record_concat, List.mem_append, List.mem_singleton] at h
    exact h.elim ih fun h => ⟨qs, q, h⟩

theorem grows_before {d : Draft} {qs : List Operation} {e : Exchange} (h : e ∈ d.record qs) :
    Grows d e.before := by
  induction qs generalizing d with
  | nil => cases h
  | cons q qs ih =>
    rcases List.mem_cons.1 h with rfl | h
    · exact .refl d
    · exact (d.perform_advances q).grows.trans (ih h)

theorem record_pairwise (d : Draft) (qs : List Operation) :
    (d.record qs).Pairwise fun e e' => Grows e.after e'.before := by
  induction qs generalizing d with
  | nil => exact .nil
  | cons q qs ih => exact .cons (fun e he => grows_before he) (ih (d.perform q).1)

theorem Exchange.written_eq {e : Exchange} {code : List Instruction}
    (h : e.after.code = e.before.code ++ code) : e.written = code := by
  rw [written, h, List.drop_left]

theorem written_exchange (d : Draft) (q : Operation) :
    (d.perform q).1.code = d.code ++ (d.exchange q).written := by
  obtain ⟨code, hcode⟩ := (d.perform_advances q).code
  rw [Exchange.written_eq (e := d.exchange q) hcode.symm]
  exact hcode.symm

theorem written_of_perform_eq {d : Draft} {q : Operation} (h : (d.perform q).1 = d) :
    (d.exchange q).written = [] := by
  apply Exchange.written_eq
  rw [List.append_nil]
  exact congrArg code h

section

variable {es : List Exchange} {d : Draft}

/-! ### Casts -/

theorem mem_casts_perform {q : Operation} {t : ValueType} (h : q.castTarget? ≠ some t) (y : VarId) :
    (t, y) ∈ (d.perform q).1.casts ↔ (t, y) ∈ d.casts := by
  rcases hq : q.castTarget? with _ | t'
  · rw [(d.perform_advances q).casts hq]
  · obtain ⟨x, rfl⟩ := Operation.castTarget?_eq_some.1 hq
    have hne : t ≠ t' := fun ht => h (ht ▸ hq)
    simp only [perform]
    rcases castTo_cases d x t' with ⟨_, hd⟩ | ⟨_, _, hd⟩ | ⟨_, hd⟩
    · rw [hd]
    · rw [hd]
    · rw [hd, casts_newCast]
      simp [hne]

/-- One more operation that writes no cast to `t` and remembers none. -/
theorem CastOnce.keep {t : ValueType} (h : CastOnce es d t) {e : Exchange} {d' : Draft}
    (hgrows : Grows d d') (hcode : e.castCode t = [])
    (hcasts : ∀ y, (t, y) ∈ d'.casts ↔ (t, y) ∈ d.casts) : CastOnce (es ++ [e]) d' t := by
  unfold CastOnce
  rw [List.flatMap_append, List.flatMap_singleton, hcode, List.append_nil]
  simp only [hcasts, List.map_append, List.mem_append]
  refine h.imp id ?_
  rintro ⟨x, y, hmem, hone, ht, hy⟩
  exact ⟨x, y, .inl hmem, hone, hgrows.typeOf? ht, hy⟩

theorem CastOnce.add {t : ValueType} (h : CastOnce es d t) {x : VarId}
    (hnone : ∀ y, (t, y) ∉ d.casts) (hd : d.castTo x t = d.newCast x t) :
    CastOnce (es ++ [d.exchange (.castTo x t)]) (d.perform (.castTo x t)).1 t := by
  have hnew : (d.perform (.castTo x t)).1 = (d.newCast x t).1 := congrArg Prod.fst hd
  have hcode : (d.exchange (.castTo x t)).castCode t =
      [.assign (.var d.declared.length) (.cast (.var x) t)] :=
    (if_pos rfl).trans (Exchange.written_eq (congrArg code hnew))
  have hbefore : es.flatMap (Exchange.castCode t) = [] := by
    rcases h with h | ⟨_, y, _, _, _, hy⟩
    · exact h.1
    · exact absurd ((hy y).2 rfl) (hnone y)
  refine .inr ⟨x, d.declared.length, by simp, ?_, ?_, fun z => ?_⟩
  · rw [List.flatMap_append, List.flatMap_singleton, hbefore, hcode, List.nil_append]
  · rw [hnew]
    exact typeOf?_assignNew d t (.cast (.var x) t)
  · rw [hnew, casts_newCast]
    simp [hnone]

theorem CastOnce.next {t : ValueType} (h : CastOnce es d t) (q : Operation) :
    CastOnce (es ++ [d.exchange q]) (d.perform q).1 t := by
  have hgrows := (d.perform_advances q).grows
  by_cases hq : q.castTarget? = some t
  · obtain ⟨x, rfl⟩ := Operation.castTarget?_eq_some.1 hq
    have hsame : (d.perform (.castTo x t)).1 = d →
        CastOnce (es ++ [d.exchange (.castTo x t)]) (d.perform (.castTo x t)).1 t := by
      intro hd
      refine h.keep hgrows ?_ fun y => by rw [hd]
      rw [Exchange.castCode, written_of_perform_eq hd, ite_self]
    rcases castTo_cases d x t with ⟨_, hd⟩ | ⟨_, _, hd⟩ | ⟨hnone, hd⟩
    · exact hsame (congrArg Prod.fst hd)
    · exact hsame (congrArg Prod.fst hd)
    · exact h.add hnone hd
  · exact h.keep hgrows (if_neg hq) (mem_casts_perform hq)

/-! ### The guard -/

theorem pushGuarded_spec (d : Draft) (f : FieldRef) (i : Instruction) :
    ∃ g load, (d.pushGuarded f i).guard = some g ∧
      (d.pushGuarded f i).code = (d.code ++ load) ++
        [.branch (.var g) ((d.code ++ load).length + 2), i, .nop] ∧
      (d.guard = some g ∧ load = [] ∨
        d.guard = none ∧ load = [.assign (.var g) (.staticField f)]) := by
  rcases hd : d.guard with _ | g
  · rw [pushGuarded_of_none hd]
    refine ⟨d.declared.length, [.assign (.var d.declared.length) (.staticField f)], rfl, ?_,
      .inr ⟨rfl, rfl⟩⟩
    simp [pushPassed, newGuard, loadField, assignNew, newVar, Draft.push]
  · rw [pushGuarded_of_some hd]
    refine ⟨g, [], hd, ?_, .inl ⟨rfl, rfl⟩⟩
    simp [pushPassed, Draft.push]

theorem guardLoad_exchange {f : FieldRef} {i : Instruction} {g : VarId} {load : List Instruction}
    (h : (d.pushGuarded f i).code = (d.code ++ load) ++
      [.branch (.var g) ((d.code ++ load).length + 2), i, .nop]) :
    (d.exchange (.pushGuarded f i)).guardLoad = load := by
  rw [List.append_assoc] at h
  rw [Exchange.guardLoad, Exchange.written_eq (e := d.exchange (.pushGuarded f i)) h]
  simp [Operation.isGuarded]

theorem GuardOnce.keep (h : GuardOnce es d) {q : Operation} (hq : q.isGuarded = false) :
    GuardOnce (es ++ [d.exchange q]) (d.perform q).1 := by
  have hload : (d.exchange q).guardLoad = [] := by simp [Exchange.guardLoad, hq]
  unfold GuardOnce
  rw [(d.perform_advances q).guard hq, List.flatMap_append, List.flatMap_singleton, hload,
    List.append_nil]
  simp only [List.forall_mem_append, List.forall_mem_singleton, List.map_append]
  refine h.imp (fun ⟨hd, hes⟩ => ⟨hd, hes, hq⟩) ?_
  rintro ⟨g, f, i, hd, hmem, hone, hes⟩
  refine ⟨g, f, i, hd, List.mem_append_left _ hmem, hone, hes, fun f' i' hop => ?_⟩
  obtain rfl : q = .pushGuarded f' i' := hop
  cases hq

theorem GuardOnce.add (h : GuardOnce es d) (f : FieldRef) (i : Instruction) :
    GuardOnce (es ++ [d.exchange (.pushGuarded f i)]) (d.pushGuarded f i) := by
  obtain ⟨g, load, hg, hcode, hbefore⟩ := d.pushGuarded_spec f i
  have hload := guardLoad_exchange hcode
  have hlast : ∀ e ∈ [d.exchange (.pushGuarded f i)], ∀ f' i', e.operation = .pushGuarded f' i' →
      e.after.code = (e.before.code ++ e.guardLoad) ++
        [.branch (.var g) ((e.before.code ++ e.guardLoad).length + 2), i', .nop] := by
    intro e he f' i' hop
    rw [List.mem_singleton.1 he] at hop ⊢
    obtain ⟨rfl, rfl⟩ := Operation.pushGuarded.inj hop
    rw [hload]
    exact hcode
  right
  rcases h with ⟨hd, hes⟩ | ⟨g', f', i', hd, hmem, hone, hes⟩
  · obtain ⟨-, rfl⟩ := hbefore.resolve_left (by simp [hd])
    have hnone : es.flatMap Exchange.guardLoad = [] :=
      List.flatMap_eq_nil_iff.2 fun e he => by simp [Exchange.guardLoad, hes e he]
    refine ⟨g, f, i, hg, by simp, by simp [hnone, hload], List.forall_mem_append.2 ⟨?_, hlast⟩⟩
    intro e he f' i' hop
    have hguarded := hes e he
    rw [hop] at hguarded
    cases hguarded
  · obtain ⟨hd', rfl⟩ := hbefore.resolve_right (by simp [hd])
    obtain rfl : g' = g := Option.some.inj (hd.symm.trans hd')
    refine ⟨g', f', i', hg, ?_, by simp [hone, hload], List.forall_mem_append.2 ⟨hes, hlast⟩⟩
    rw [List.map_append]
    exact List.mem_append_left _ hmem

theorem GuardOnce.next (h : GuardOnce es d) (q : Operation) :
    GuardOnce (es ++ [d.exchange q]) (d.perform q).1 := by
  cases q with
  | pushGuarded f i => exact h.add f i
  | _ => exact h.keep rfl

/-! ### The variable that stands for all objects -/

theorem RepresentativeOnce.keep (h : RepresentativeOnce es d) {q : Operation}
    (hq : q.isRepresentative = false)
    (hd : (d.perform q).1.representative = d.representative) :
    RepresentativeOnce (es ++ [d.exchange q]) (d.perform q).1 := by
  have hgrows := (d.perform_advances q).grows
  have hcode : (d.exchange q).firstValueCode = [] := by simp [Exchange.firstValueCode, hq]
  unfold RepresentativeOnce
  rw [hd, List.flatMap_append, List.flatMap_singleton, hcode, List.append_nil]
  simp only [List.forall_mem_append, List.forall_mem_singleton, List.map_append]
  refine h.imp (fun ⟨hd, hes⟩ => ⟨hd, hes, hq⟩) ?_
  rintro ⟨r, t, hr, ht, hes, hfirst⟩
  refine ⟨r, t, hr, hgrows.typeOf? ht, ⟨hes, fun h => ?_⟩, hfirst.imp_right ?_⟩
  · rw [exchange_operation, hq] at h
    cases h
  · rintro ⟨a, hmem, hone⟩
    exact ⟨a, List.mem_append_left _ hmem, hone⟩

theorem RepresentativeOnce.firstValueCode_eq_nil
    (hes : ∀ e ∈ es, e.operation.isRepresentative = false) :
    es.flatMap Exchange.firstValueCode = [] :=
  List.flatMap_eq_nil_iff.2 fun e he => by simp [Exchange.firstValueCode, hes e he]

theorem RepresentativeOnce.ask (h : RepresentativeOnce es d) (a : Abstraction) :
    RepresentativeOnce (es ++ [d.exchange (.representative a)])
      (d.perform (.representative a)).1 := by
  rcases h with ⟨hd, hes⟩ | ⟨r, t, hr, ht, hes, hfirst⟩
  · have hnew : d.perform (.representative a) =
        ((Abstraction.newRepresentative d a.firstValue.1 a.firstValue.2).1,
          .var d.declared.length) := by
      rw [perform, a.representative_of_none d hd]
      rfl
    have hcode : (d.exchange (.representative a)).firstValueCode =
        [.assign (.var d.declared.length) a.firstValue.2] :=
      (if_pos rfl).trans (Exchange.written_eq (congrArg (code ∘ Prod.fst) hnew))
    refine .inr ⟨d.declared.length, a.firstValue.1, by rw [hnew]; rfl, ?_, ?_,
      .inr ⟨a, by simp, ?_⟩⟩
    · rw [hnew]
      exact typeOf?_assignNew d a.firstValue.1 a.firstValue.2
    · intro e he hop
      rcases List.mem_append.1 he with he | he
      · rw [hes e he] at hop
        cases hop
      · rw [List.mem_singleton.1 he]
        exact congrArg Prod.snd hnew
    · rw [List.flatMap_append, firstValueCode_eq_nil hes, List.flatMap_singleton, hcode,
        List.nil_append]
  · have hsame : d.perform (.representative a) = (d, .var r) := by
      rw [perform, a.representative_of_some d hr]
    have hcode : (d.exchange (.representative a)).firstValueCode = [] :=
      (if_pos rfl).trans (written_of_perform_eq (congrArg Prod.fst hsame))
    refine .inr ⟨r, t, by rw [hsame]; exact hr, by rw [hsame]; exact ht, ?_, ?_⟩
    · refine List.forall_mem_append.2 ⟨hes, fun e he _ => ?_⟩
      rw [List.mem_singleton.1 he]
      exact congrArg Prod.snd hsame
    · rw [List.flatMap_append, List.flatMap_singleton, hcode, List.append_nil, List.map_append]
      exact hfirst.imp_right fun ⟨a, hmem, hone⟩ => ⟨a, List.mem_append_left _ hmem, hone⟩

theorem RepresentativeOnce.store (h : RepresentativeOnce es d) (a : Abstraction) (x : VarId) :
    RepresentativeOnce (es ++ [d.exchange (.store a x)]) (d.perform (.store a x)).1 := by
  cases a with
  | shared f => exact h.keep rfl rfl
  | perUnit =>
    rcases hd : d.representative with _ | r
    · have hes : ∀ e ∈ es, e.operation.isRepresentative = false := by
        rcases h with h | ⟨r, t, hr, _⟩
        · exact h.2
        · rw [hd] at hr
          cases hr
      have hall : ∀ e ∈ es ++ [d.exchange (.store .perUnit x)],
          e.operation.isRepresentative = false :=
        List.forall_mem_append.2 ⟨hes, by simp [Operation.isRepresentative]⟩
      have hnew : (d.perform (.store .perUnit x)).1 =
          (Abstraction.newRepresentative d .object (.use (.var x))).1 :=
        Abstraction.store_perUnit_of_none d hd x
      refine .inr ⟨d.declared.length, .object, by rw [hnew]; rfl, ?_, ?_,
        .inl (firstValueCode_eq_nil hall)⟩
      · rw [hnew]
        exact typeOf?_assignNew d .object (.use (.var x))
      · intro e he hop
        rw [hall e he] at hop
        cases hop
    · refine h.keep rfl ?_
      rw [hd]
      exact congrArg Draft.representative (Abstraction.store_perUnit_of_some d hd x) |>.trans hd

theorem RepresentativeOnce.next (h : RepresentativeOnce es d) (q : Operation) :
    RepresentativeOnce (es ++ [d.exchange q]) (d.perform q).1 := by
  cases q with
  | representative a => exact h.ask a
  | store a x => exact h.store a x
  | _ => exact h.keep rfl ((d.perform_advances _).representative rfl)

end

/-! ## All operations -/

theorem castOnce_record (qs : List Operation) (t : ValueType) :
    CastOnce (record .empty qs) (performAll .empty qs) t :=
  record_induction (P := fun es d => CastOnce es d t) (.inl ⟨rfl, fun _ => List.not_mem_nil⟩)
    (fun _ _ q h => h.next q) qs

theorem guardOnce_record (qs : List Operation) :
    GuardOnce (record .empty qs) (performAll .empty qs) :=
  record_induction (P := GuardOnce) (.inl ⟨rfl, List.forall_mem_nil _⟩) (fun _ _ q h => h.next q) qs

theorem representativeOnce_record (qs : List Operation) :
    RepresentativeOnce (record .empty qs) (performAll .empty qs) :=
  record_induction (P := RepresentativeOnce) (.inl ⟨rfl, List.forall_mem_nil _⟩)
    (fun _ _ q h => h.next q) qs

theorem typeOf?_of_mem_casts {qs : List Operation} {t : ValueType} {y : VarId}
    (h : (t, y) ∈ (performAll .empty qs).casts) : (performAll .empty qs).typeOf? y = some t := by
  rcases castOnce_record qs t with ⟨_, hnone⟩ | ⟨_, z, _, _, hz, hmem⟩
  · exact absurd h (hnone y)
  · rwa [(hmem y).1 h]

theorem exists_type_representative {qs : List Operation} {r : VarId}
    (h : (performAll .empty qs).representative = some r) :
    ∃ t, (performAll .empty qs).typeOf? r = some t := by
  rcases representativeOnce_record qs with ⟨hnone, _⟩ | ⟨r', t, hr', ht, _⟩
  · rw [hnone] at h
    cases h
  · rw [hr'] at h
    exact ⟨t, Option.some.inj h ▸ ht⟩

/-- A variable in a reply was there before, and nothing has been done, or it is new. -/
theorem old_or_new_of_reply {qs : List Operation} {e : Exchange} {x : VarId}
    (he : e ∈ record .empty qs) (hx : e.reply = .var x) :
    e.operation.isAllocation = false ∧ e.written = [] ∧ (∃ t, e.after.typeOf? x = some t) ∨
      e.Declares x := by
  obtain ⟨qs', q, rfl⟩ := exists_of_mem_record he
  rcases perform_var (fun _ _ => typeOf?_of_mem_casts) (fun _ => exists_type_representative) hx with
    ⟨hq, hsame, t, ht⟩ | hnew
  · exact .inl ⟨hq, written_of_perform_eq hsame, t, by rw [exchange_after, hsame]; exact ht⟩
  · exact .inr hnew

/-- Whatever is done to an empty draft, what it remembers goes with what it has written. -/
theorem consistent_record (qs : List Operation) :
    Consistent (record .empty qs) (performAll .empty qs) where
  appends e he := by
    obtain ⟨qs', q, rfl⟩ := exists_of_mem_record he
    exact written_exchange _ q
  declared e he x hx := by
    rcases old_or_new_of_reply he hx with ⟨_, _, ht⟩ | hnew
    · exact ht
    · exact hnew.2
  stays := by
    refine (record_pairwise .empty qs).imp_of_mem fun _ he' hgrows x t hx => ?_
    obtain ⟨qs', q, rfl⟩ := exists_of_mem_record he'
    exact (perform_advances _ q).grows.typeOf? (hgrows.typeOf? hx)
  fresh e he x hx hnew := by
    rcases old_or_new_of_reply he hx with ⟨hq, hw, _⟩ | hdeclares
    · rcases hnew with h | h
      · rw [hq] at h
        cases h
      · exact absurd hw h
    · exact hdeclares
  distinct := by
    refine (record_pairwise .empty qs).imp fun hgrows x y hx hy hxy => ?_
    obtain ⟨t, ht⟩ := hx.2
    have hbefore := hy.1
    rw [← hxy, hgrows.typeOf? ht] at hbefore
    cases hbefore
  typed e he x t hop := by
    obtain ⟨qs', q, rfl⟩ := exists_of_mem_record he
    obtain rfl : q = .castTo x t := hop
    exact ⟨_, rfl, typeOf?_castTo (fun _ _ => typeOf?_of_mem_casts) x t⟩
  casts := castOnce_record qs
  guard := guardOnce_record qs
  representative := representativeOnce_record qs
  refused e he error hrefused := by
    obtain ⟨qs', q, rfl⟩ := exists_of_mem_record he
    exact perform_refused hrefused

end Draft

end Standin
