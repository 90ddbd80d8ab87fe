import Mathlib.Data.List.Find
import Mathlib.Data.List.Induction
import Standin.Proofs.FirstOccurrence
import Standin.Proofs.Scan
import Standin.Proofs.Trace

/-!
# What there is to be found

A scan passes over the code once, and what it makes of an instruction depends on what it has seen
before. What it finds can be said without the pass. `Subject.findings` reads each list of effects
off the code: the array types that are created, the constructors that are run, the calls with and
without a result, the types that are thrown, each in the order of first occurrence. Only one
instruction hangs on the others: the write into an array (`elementWrite?`), whose value is not
looked at. The scan fails at the first instruction that asks for the type of a variable that is not
declared (`Subject.FirstFault`).

Which runs of a constructor count as creations is the subject of the last section. A constructor
takes every run of a constructor of the direct superclass for the start of its own object, so an
object of the superclass that it creates is not found.
-/

namespace Standin

/-- The list with `x` at its end, if there is an `x` and the list does not hold it already. -/
def addSome {α : Type} [DecidableEq α] (xs : List α) (x : Option α) : List α :=
  x.elim xs (addNew xs)

@[simp]
theorem addSome_none {α : Type} [DecidableEq α] (xs : List α) : addSome xs none = xs :=
  rfl

@[simp]
theorem addSome_some {α : Type} [DecidableEq α] (xs : List α) (x : α) :
    addSome xs (some x) = addNew xs x :=
  rfl

theorem eraseDups_filterMap_concat {α β : Type} [DecidableEq β] (f : α → Option β) (xs : List α)
    (x : α) :
    ((xs ++ [x]).filterMap f).eraseDups = addSome (xs.filterMap f).eraseDups (f x) := by
  rw [List.filterMap_append]
  rcases hx : f x with _ | y
  · simp [hx, addSome]
  · simp [hx, addSome, eraseDups_concat]

/-- The call runs a constructor on an object, be it new or not. -/
def Invocation.runsConstructor (i : Invocation) : Bool :=
  i.dispatch = .special && i.callee.isConstructor

namespace Instruction

/-- The array type that the instruction allocates. -/
def createdArray? : Instruction → Option ValueType
  | assign _ (.newArray t _) => some t
  | _ => none

/-- The instruction reads an array element. -/
def readsElement : Instruction → Bool
  | assign _ value => value.isArrayElement
  | _ => false

/-- The instruction writes an array element, creates no array, and is not the first to read an
element; `hasRead` tells whether one has been read before. -/
def writesElement (hasRead : Bool) : Instruction → Bool
  | assign _ (.newArray _ _) => false
  | assign dest value => dest.isArrayElement && (hasRead || !value.isArrayElement)
  | _ => false

/-- The variable whose type is asked for: the one that is thrown, or that a call is made on. -/
def inspected? : Instruction → Option VarId
  | throw v => v.var?
  | i => i.invocation?.bind Invocation.receiver

end Instruction

/-! ## The write into an array -/

/-- The position of the instruction that counts as the write into an array: the first that can. -/
def elementWrite? (code : List Instruction) : Option Nat :=
  (List.range code.length).find? fun k =>
    code[k]?.any (Instruction.writesElement ((code.take k).any Instruction.readsElement))

/-- The code without the write into an array. -/
def besideWrite (code : List Instruction) : List Instruction :=
  (elementWrite? code).elim code code.eraseIdx

/-- The write into an array comes right behind the code. -/
def isNextWrite (code : List Instruction) (i : Instruction) : Bool :=
  (elementWrite? code).isNone && i.writesElement (code.any Instruction.readsElement)

theorem elementWrite?_eq_none {code : List Instruction} {i : Instruction}
    (h : isNextWrite code i) : elementWrite? code = none :=
  Option.isNone_iff_eq_none.1 (Bool.and_eq_true_iff.1 h).1

theorem lt_of_elementWrite? {code : List Instruction} {k : Nat} (h : elementWrite? code = some k) :
    k < code.length :=
  List.mem_range.1 (List.mem_of_find?_eq_some h)

theorem elementWrite?_concat (code : List Instruction) (i : Instruction) :
    elementWrite? (code ++ [i]) =
      if isNextWrite code i then some code.length else elementWrite? code := by
  have hbefore : ∀ k ∈ List.range code.length,
      (code ++ [i])[k]?.any
          (Instruction.writesElement (((code ++ [i]).take k).any Instruction.readsElement)) =
        code[k]?.any (Instruction.writesElement ((code.take k).any Instruction.readsElement)) := by
    intro k hk
    have hlt := List.mem_range.1 hk
    rw [List.getElem?_append_left hlt, List.take_append_of_le_length (Nat.le_of_lt hlt)]
  have hsplit : elementWrite? (code ++ [i]) = (elementWrite? code).or
      (if i.writesElement (code.any Instruction.readsElement) then some code.length
        else none) := by
    rw [elementWrite?, List.length_append, List.length_singleton, List.range_succ,
      List.find?_append, List.find?_congr hbefore, ← elementWrite?]
    simp [List.find?_singleton]
  rw [hsplit, isNextWrite]
  cases elementWrite? code <;> simp

theorem elementWrite?_concat_of_lt {code : List Instruction} {i : Instruction} {k : Nat}
    (hk : k < code.length) :
    elementWrite? (code ++ [i]) = some k ↔ elementWrite? code = some k := by
  rw [elementWrite?_concat]
  split
  · next h => simp [elementWrite?_eq_none h, Nat.ne_of_gt hk]
  · rfl

theorem elementWrite?_concat_length {code : List Instruction} {i : Instruction} :
    elementWrite? (code ++ [i]) = some code.length ↔ isNextWrite code i := by
  rw [elementWrite?_concat]
  split
  · next h => simp [h]
  · next h => exact iff_of_false (fun hw => Nat.lt_irrefl _ (lt_of_elementWrite? hw)) h

/-- What stands behind the write does not matter. -/
theorem elementWrite?_append {code : List Instruction} {k : Nat} (h : elementWrite? code = some k)
    (rest : List Instruction) : elementWrite? (code ++ rest) = some k := by
  induction rest using List.reverseRecOn with
  | nil => rwa [List.append_nil]
  | append_singleton rest i ih =>
    rw [← List.append_assoc, elementWrite?_concat, isNextWrite, ih]
    rfl

theorem besideWrite_concat (code : List Instruction) (i : Instruction) :
    besideWrite (code ++ [i]) = besideWrite code ++ if isNextWrite code i then [] else [i] := by
  unfold besideWrite
  rw [elementWrite?_concat]
  split
  · next h => simp [elementWrite?_eq_none h, List.eraseIdx_append_of_length_le]
  · rcases hw : elementWrite? code with _ | k
    · rfl
    · exact List.eraseIdx_append_of_lt_length (lt_of_elementWrite? hw) [i]

namespace Subject

variable {s : Subject} {code : List Instruction} {i : Instruction}

/-! ## Lists of effects -/

/-- The call with the declared type of its receiver. -/
def typed (s : Subject) (i : Invocation) : Call :=
  ⟨i.dispatch, i.callee, i.receiver.bind s.body.typeOf?⟩

/-- The method is a constructor, and `c` is the direct superclass of its class. -/
def chainsTo (s : Subject) (c : String) : Bool :=
  s.method.isConstructor && s.owner.superclass = some c

theorem isSuperConstructorCall_eq (s : Subject) (i : Invocation) :
    s.isSuperConstructorCall i = (i.runsConstructor && s.chainsTo i.callee.className) := by
  simp only [isSuperConstructorCall, Invocation.runsConstructor, chainsTo]
  ac_rfl

theorem isObjectCreation_eq (s : Subject) (i : Invocation) :
    s.isObjectCreation i = (i.runsConstructor && !s.chainsTo i.callee.className) := by
  rw [isObjectCreation, isSuperConstructorCall_eq, ← Invocation.runsConstructor]
  cases i.runsConstructor <;> rfl

/-- The constructor that the instruction runs, unless the method chains to its class. -/
def constructor? (s : Subject) : Instruction → Option MethodRef
  | .invoke i =>
    if i.runsConstructor && !s.chainsTo i.callee.className then some i.callee else none
  | _ => none

/-- The call that the instruction makes for no result, other than to run a constructor. -/
def statement? (s : Subject) : Instruction → Option Call
  | .invoke i => if i.runsConstructor then none else some (s.typed i)
  | _ => none

/-- The call that the instruction makes for its result. -/
def result? (s : Subject) : Instruction → Option Call
  | .assign _ (.invoke i) => some (s.typed i)
  | _ => none

/-- The type of the value that the instruction throws, if it is known. -/
def thrownType? (s : Subject) (i : Instruction) : Option ValueType :=
  i.thrown?.bind s.body.operandType?

/-- The effects of code, each list in the order of first occurrence. -/
def listed (s : Subject) (code : List Instruction) : Effects where
  arrayCreations := (code.filterMap Instruction.createdArray?).eraseDups
  objectCreations := (code.filterMap s.constructor?).eraseDups
  statements := (code.filterMap s.statement?).eraseDups
  results := ((besideWrite code).filterMap s.result?).eraseDups
  throwables := (code.filterMap s.thrownType?).eraseDups
  checkedExceptions := []
  readsArray := code.any Instruction.readsElement
  writesArray := (elementWrite? code).isSome

theorem listed_concat (s : Subject) (code : List Instruction) (i : Instruction) :
    s.listed (code ++ [i]) =
      { arrayCreations := addSome (s.listed code).arrayCreations i.createdArray?
        objectCreations := addSome (s.listed code).objectCreations (s.constructor? i)
        statements := addSome (s.listed code).statements (s.statement? i)
        results :=
          addSome (s.listed code).results (if isNextWrite code i then none else s.result? i)
        throwables := addSome (s.listed code).throwables (s.thrownType? i)
        checkedExceptions := []
        readsArray := (s.listed code).readsArray || i.readsElement
        writesArray := (s.listed code).writesArray || isNextWrite code i } := by
  have hresults : ((besideWrite (code ++ [i])).filterMap s.result?).eraseDups =
      addSome (s.listed code).results (if isNextWrite code i then none else s.result? i) := by
    rw [besideWrite_concat]
    split
    · simp [listed, addSome]
    · exact eraseDups_filterMap_concat _ _ _
  have hwrite : (elementWrite? (code ++ [i])).isSome =
      ((elementWrite? code).isSome || isNextWrite code i) := by
    rw [elementWrite?_concat]
    cases isNextWrite code i <;> simp
  simp only [listed, eraseDups_filterMap_concat, hresults, hwrite, List.any_append, List.any_cons,
    List.any_nil, Bool.or_false]

/-- The instruction at position `k` asks for the type of `x`, which is not declared. The write into
an array asks for no type. -/
structure Fault (s : Subject) (code : List Instruction) (k : Nat) (x : VarId) : Prop where
  inspects : code[k]?.bind Instruction.inspected? = some x
  undeclared : s.body.typeOf? x = none
  counts : elementWrite? code ≠ some k

theorem typeOf_eq_ok {x : VarId} {t : ValueType} (h : s.typeOf x = .ok t) :
    s.body.typeOf? x = some t := by
  unfold typeOf at h
  split at h
  · next ht =>
    cases h
    exact ht
  · cases h

theorem typeOf_eq_error {x : VarId} {err : ModelError} (h : s.typeOf x = .error err) :
    s.body.typeOf? x = none ∧ err = .unknownVariable s.ref x := by
  unfold typeOf at h
  split at h
  · cases h
  · next ht =>
    cases h
    exact ⟨ht, rfl⟩

theorem call_eq_typed {i : Invocation} {c : Call} (h : s.call i = .ok c) :
    c = s.typed i ∧ ∀ x, i.receiver = some x → s.body.typeOf? x ≠ none := by
  unfold call at h
  split at h
  · next hr =>
    cases h
    simp [typed, hr]
  · next x hr =>
    rcases ht : s.typeOf x with err | t
    · rw [ht] at h
      cases h
    · rw [ht] at h
      cases h
      simp [typed, hr, typeOf_eq_ok ht]

theorem call_eq_error {i : Invocation} {err : ModelError} (h : s.call i = .error err) :
    ∃ x, i.receiver = some x ∧ s.body.typeOf? x = none ∧ err = .unknownVariable s.ref x := by
  unfold call at h
  split at h
  · cases h
  · next x hr =>
    rcases ht : s.typeOf x with err' | t
    · rw [ht] at h
      cases h
      exact ⟨x, hr, typeOf_eq_error ht⟩
    · rw [ht] at h
      cases h

section Assign

variable {seen : ArrayAccess} {dest : Place} {value : Expr}

theorem assignEffect?_read (s : Subject) (h : !seen.reads && value.isArrayElement) :
    s.assignEffect? seen dest value = .ok (some .arrayRead) := by
  cases value <;> simp_all [assignEffect?, Expr.isArrayElement]

theorem assignEffect?_write (s : Subject)
    (h : !seen.writes && (Instruction.assign dest value).writesElement seen.reads) :
    s.assignEffect? seen dest value = .ok (some .arrayWrite) := by
  cases value <;> simp_all [assignEffect?, Instruction.writesElement, Expr.isArrayElement]

/-- An assignment that is neither the creation of an array nor the first read nor the write. -/
theorem assignEffect?_late (s : Subject) (hn : (Instruction.assign dest value).createdArray? = none)
    (hr : (!seen.reads && value.isArrayElement) = false)
    (hw : (!seen.writes && (Instruction.assign dest value).writesElement seen.reads) = false) :
    (∃ i, value = .invoke i ∧
        s.assignEffect? seen dest value = (s.call i).map fun c => some (.result c)) ∨
      (∀ i, value ≠ .invoke i) ∧ s.assignEffect? seen dest value = .ok none := by
  cases value <;>
    simp_all [assignEffect?, Instruction.writesElement, Instruction.createdArray?,
      Expr.isArrayElement]

theorem listed_newArray (s : Subject) (code : List Instruction) (dest : Place) (t : ValueType)
    (ls : List Operand) :
    s.listed (code ++ [.assign dest (.newArray t ls)]) =
      (s.listed code).record (.arrayCreation t) := by
  rw [listed_concat]
  simp [isNextWrite, Instruction.writesElement, Instruction.createdArray?, constructor?,
    statement?, result?, thrownType?, Instruction.thrown?, Instruction.readsElement,
    Expr.isArrayElement, Effects.record, listed]

theorem listed_assign (s : Subject) (code : List Instruction) (dest : Place) (value : Expr)
    (hn : (Instruction.assign dest value).createdArray? = none) :
    s.listed (code ++ [.assign dest value]) =
      { s.listed code with
        results := addSome (s.listed code).results
          (if isNextWrite code (.assign dest value) then none else s.result? (.assign dest value))
        readsArray := (s.listed code).readsArray || value.isArrayElement
        writesArray := (s.listed code).writesArray || isNextWrite code (.assign dest value) } := by
  rw [listed_concat, hn]
  rfl

end Assign

/-- The instruction behind the code asks for the type of `x`, which is not declared. -/
structure NextFault (s : Subject) (code : List Instruction) (i : Instruction) (x : VarId) :
    Prop where
  inspects : i.inspected? = some x
  undeclared : s.body.typeOf? x = none
  counts : isNextWrite code i = false

/-- The instruction behind the code has the effect `f`, and this is what it adds to the lists. -/
structure Contributes (s : Subject) (code : List Instruction) (i : Instruction)
    (f : Option Effect) : Prop where
  effect : s.effect? (s.listed code).access i = .ok f
  listed : s.listed (code ++ [i]) = f.elim (s.listed code) (s.listed code).record
  write : f = some .arrayWrite ↔ isNextWrite code i
  declared : ∀ x, ¬s.NextFault code i x

/-- The scan of the code goes on with the instruction, or fails on a variable. -/
def GoesOn (s : Subject) (code : List Instruction) (i : Instruction) : Prop :=
  (∃ f, s.Contributes code i f) ∨
    ∃ x, s.NextFault code i x ∧
      s.effect? (s.listed code).access i = .error (.unknownVariable s.ref x)

theorem isNextWrite_eq (s : Subject) (code : List Instruction) (i : Instruction) :
    isNextWrite code i =
      (!(s.listed code).access.writes && i.writesElement (s.listed code).access.reads) := by
  simp [isNextWrite, Subject.listed, Effects.access]

theorem contributes_newArray (s : Subject) (code : List Instruction) (dest : Place) (t : ValueType)
    (ls : List Operand) :
    s.Contributes code (.assign dest (.newArray t ls)) (some (.arrayCreation t)) := by
  refine ⟨rfl, listed_newArray s code dest t ls, ?_, ?_⟩
  · simp [isNextWrite, Instruction.writesElement]
  · rintro x ⟨hx, _⟩
    cases hx

theorem contributes_read {dest : Place} {value : Expr}
    (hr : !(s.listed code).access.reads && value.isArrayElement) :
    s.Contributes code (.assign dest value) (some .arrayRead) := by
  obtain ⟨y, v, rfl⟩ : ∃ y v, value = .arrayElement y v := by
    cases value <;> simp_all [Expr.isArrayElement]
  have hw : isNextWrite code (.assign dest (.arrayElement y v)) = false := by
    rw [isNextWrite_eq s]
    simp_all [Instruction.writesElement, Expr.isArrayElement]
  refine ⟨assignEffect?_read s hr, ?_, by simp [hw], ?_⟩
  · rw [listed_assign s code dest _ rfl, hw]
    simp [result?, Effects.record, Expr.isArrayElement]
  · rintro x ⟨hx, _⟩
    cases hx

/-- Behind the first read another one shows nothing new. -/
theorem listed_late {dest : Place} {value : Expr}
    (hn : (Instruction.assign dest value).createdArray? = none)
    (hr : (!(s.listed code).access.reads && value.isArrayElement) = false) :
    s.listed (code ++ [.assign dest value]) =
      { s.listed code with
        results := addSome (s.listed code).results
          (if isNextWrite code (.assign dest value) then none else s.result? (.assign dest value))
        writesArray := (s.listed code).writesArray || isNextWrite code (.assign dest value) } := by
  have hreads : ((s.listed code).readsArray || value.isArrayElement) =
      (s.listed code).readsArray := by
    cases hv : value.isArrayElement <;> simp_all [Effects.access]
  rw [listed_assign s code dest value hn, hreads]

theorem contributes_write {dest : Place} {value : Expr}
    (hn : (Instruction.assign dest value).createdArray? = none)
    (hr : (!(s.listed code).access.reads && value.isArrayElement) = false)
    (hw : isNextWrite code (.assign dest value)) :
    s.Contributes code (.assign dest value) (some .arrayWrite) := by
  refine ⟨assignEffect?_write s (isNextWrite_eq s code _ ▸ hw), ?_, by simp [hw], ?_⟩
  · rw [listed_late hn hr, hw]
    simp [Effects.record]
  · rintro x ⟨_, _, hx⟩
    rw [hw] at hx
    cases hx

theorem goesOn_late {dest : Place} {value : Expr}
    (hn : (Instruction.assign dest value).createdArray? = none)
    (hr : (!(s.listed code).access.reads && value.isArrayElement) = false)
    (hw : isNextWrite code (.assign dest value) = false) : s.GoesOn code (.assign dest value) := by
  have hlisted := listed_late hn hr
  rw [hw] at hlisted
  rcases assignEffect?_late s hn hr ((isNextWrite_eq s code _).symm.trans hw) with
    ⟨i, rfl, he⟩ | ⟨hv, he⟩
  · rcases hc : s.call i with err | c
    · rw [hc] at he
      obtain ⟨x, hx, ht, rfl⟩ := call_eq_error hc
      exact .inr ⟨x, ⟨hx, ht, hw⟩, he⟩
    · rw [hc] at he
      refine .inl ⟨_, he, ?_, by simp [hw], ?_⟩
      · rw [hlisted, (call_eq_typed hc).1]
        simp [result?, Effects.record]
      · rintro x ⟨hx, ht, _⟩
        exact (call_eq_typed hc).2 x hx ht
  · refine .inl ⟨_, he, ?_, by simp [hw], ?_⟩
    · have hresult : s.result? (.assign dest value) = none := by
        cases value with
        | invoke i => exact absurd rfl (hv i)
        | _ => rfl
      rw [hlisted, hresult]
      simp
    · rintro x ⟨hx, _⟩
      cases value with
      | invoke i => exact hv i rfl
      | _ => cases hx

theorem goesOn_assign (s : Subject) (code : List Instruction) (dest : Place) (value : Expr) :
    s.GoesOn code (.assign dest value) := by
  rcases hn : (Instruction.assign dest value).createdArray? with _ | t
  · rcases hr : !(s.listed code).access.reads && value.isArrayElement with _ | _
    · rcases hw : isNextWrite code (.assign dest value) with _ | _
      · exact goesOn_late hn hr hw
      · exact .inl ⟨_, contributes_write hn hr hw⟩
    · exact .inl ⟨_, contributes_read hr⟩
  · obtain ⟨ls, rfl⟩ : ∃ ls, value = .newArray t ls := by
      cases value <;> simp_all [Instruction.createdArray?]
    exact .inl ⟨_, contributes_newArray s code dest t ls⟩

theorem isNextWrite_other (code : List Instruction) (hi : ∀ dest value, i ≠ .assign dest value) :
    isNextWrite code i = false := by
  cases i with
  | assign dest value => exact absurd rfl (hi dest value)
  | _ => exact Bool.and_false _

/-- An instruction other than an assignment. -/
theorem listed_other (s : Subject) (code : List Instruction)
    (hi : ∀ dest value, i ≠ .assign dest value) :
    s.listed (code ++ [i]) =
      { s.listed code with
        objectCreations := addSome (s.listed code).objectCreations (s.constructor? i)
        statements := addSome (s.listed code).statements (s.statement? i)
        throwables := addSome (s.listed code).throwables (s.thrownType? i) } := by
  rw [listed_concat, isNextWrite_other code hi]
  cases i with
  | assign dest value => exact absurd rfl (hi dest value)
  | _ => simp [Instruction.createdArray?, result?, Instruction.readsElement, Subject.listed]

theorem goesOn_invoke (s : Subject) (code : List Instruction) (i : Invocation) :
    s.GoesOn code (.invoke i) := by
  have hi : ∀ dest value, Instruction.invoke i ≠ .assign dest value := by simp
  have hw := isNextWrite_other code hi
  have hlisted := listed_other s code hi
  rcases hc : s.call i with err | c
  · obtain ⟨x, hx, ht, rfl⟩ := call_eq_error hc
    exact .inr ⟨x, ⟨hx, ht, hw⟩, by simp only [effect?, hc]; rfl⟩
  · obtain ⟨rfl, hdeclared⟩ := call_eq_typed hc
    refine .inl ⟨_, by simp only [effect?, hc]; rfl, ?_, ?_, ?_⟩
    · rw [hlisted, isObjectCreation_eq, isSuperConstructorCall_eq]
      rcases hr : i.runsConstructor with _ | _ <;>
        rcases hs : s.chainsTo i.callee.className with _ | _ <;>
        simp [hr, hs, constructor?, statement?, thrownType?, Instruction.thrown?, Effects.record]
    · rw [hw]
      split_ifs <;> simp
    · rintro x ⟨hx, ht, _⟩
      exact hdeclared x hx ht

theorem goesOn_throw (s : Subject) (code : List Instruction) (v : Operand) :
    s.GoesOn code (.throw v) := by
  have hi : ∀ dest value, Instruction.throw v ≠ .assign dest value := by simp
  have hw := isNextWrite_other code hi
  have hlisted := listed_other s code hi
  cases v with
  | var x =>
    rcases ht : s.typeOf x with err | t
    · obtain ⟨hx, rfl⟩ := typeOf_eq_error ht
      exact .inr ⟨x, ⟨rfl, hx, hw⟩, by simp only [effect?, ht]; rfl⟩
    · refine .inl ⟨_, by simp only [effect?, ht]; rfl, ?_, by simp [hw], ?_⟩
      · rw [hlisted]
        simp [constructor?, statement?, thrownType?, Instruction.thrown?, Body.operandType?,
          typeOf_eq_ok ht, Effects.record]
      · rintro y ⟨hy, hn, _⟩
        cases hy
        rw [typeOf_eq_ok ht] at hn
        cases hn
  | const k =>
    refine .inl ⟨_, rfl, ?_, by simp [hw], ?_⟩
    · rw [hlisted]
      rcases hk : k.type? with _ | t <;>
        simp [constructor?, statement?, thrownType?, Instruction.thrown?, Body.operandType?, hk,
          Effects.record]
    · rintro y ⟨hy, _⟩
      cases hy

/-- The scan goes on behind every code, as its lists say. -/
theorem goesOn (s : Subject) (code : List Instruction) (i : Instruction) : s.GoesOn code i := by
  cases i with
  | assign dest value => exact goesOn_assign s code dest value
  | invoke i => exact goesOn_invoke s code i
  | throw v => exact goesOn_throw s code v
  | bind | branch | goto | ret | nop =>
    refine .inl ⟨none, rfl, ?_, ?_, ?_⟩
    · rw [listed_other s code (by simp)]
      simp [constructor?, statement?, thrownType?, Instruction.thrown?]
    · simp [isNextWrite_other code]
    · rintro x ⟨hx, _⟩
      cases hx

/-! ## The whole scan -/

theorem Fault.lt {k : Nat} {x : VarId} (h : s.Fault code k x) : k < code.length := by
  obtain ⟨j, hj, _⟩ := Option.bind_eq_some_iff.1 h.inspects
  exact (List.getElem?_eq_some_iff.1 hj).1

/-- The faults of longer code: those before, and that of the last instruction. -/
theorem fault_concat {k : Nat} {x : VarId} :
    s.Fault (code ++ [i]) k x ↔ s.Fault code k x ∨ k = code.length ∧ s.NextFault code i x := by
  rcases Nat.lt_trichotomy k code.length with hk | rfl | hk
  · have hget : (code ++ [i])[k]? = code[k]? := List.getElem?_append_left hk
    have hiff : s.Fault (code ++ [i]) k x ↔ s.Fault code k x := by
      refine ⟨fun h => ⟨hget ▸ h.inspects, h.undeclared, ?_⟩,
        fun h => ⟨hget ▸ h.inspects, h.undeclared, ?_⟩⟩
      · exact mt (elementWrite?_concat_of_lt hk).2 h.counts
      · exact mt (elementWrite?_concat_of_lt hk).1 h.counts
    rw [hiff]
    simp [Nat.ne_of_lt hk]
  · have hget : (code ++ [i])[code.length]? = some i := by simp
    constructor
    · rintro ⟨hx, ht, hw⟩
      rw [hget] at hx
      exact .inr ⟨rfl, hx, ht, by simpa using mt elementWrite?_concat_length.2 hw⟩
    · rintro (h | ⟨_, hx, ht, hw⟩)
      · exact absurd h.lt (Nat.lt_irrefl _)
      · refine ⟨by rw [hget]; exact hx, ht, mt elementWrite?_concat_length.1 (by simp [hw])⟩
  · constructor
    · intro h
      have := h.lt
      simp only [List.length_append, List.length_singleton] at this
      omega
    · rintro (h | ⟨rfl, _⟩)
      · exact absurd h.lt (Nat.lt_asymm hk)
      · exact absurd hk (Nat.lt_irrefl _)

/-- The first instruction that asks for the type of a variable that is not declared asks for that
of `x`. -/
def FirstFault (s : Subject) (code : List Instruction) (x : VarId) : Prop :=
  ∃ k, s.Fault code k x ∧ ∀ j < k, ∀ y, ¬s.Fault code j y

/-- A scan finds what the lists say, or stops at the first fault. -/
theorem scan_spec (s : Subject) (code : List Instruction) :
    (code.foldlM s.step Effects.empty = .ok (s.listed code) ∧ ∀ k x, ¬s.Fault code k x) ∨
      ∃ x, code.foldlM s.step Effects.empty = .error (.unknownVariable s.ref x) ∧
        s.FirstFault code x := by
  induction code using List.reverseRecOn with
  | nil =>
    refine .inl ⟨rfl, ?_⟩
    rintro k x ⟨hx, _⟩
    cases hx
  | append_singleton code i ih =>
    rw [List.foldlM_append]
    rcases ih with ⟨hrun, hnone⟩ | ⟨x, hrun, k, hk, hfirst⟩
    · -- So far there is no fault, and `goesOn` says what the next instruction does to the lists.
      rcases s.goesOn code i with ⟨f, hf⟩ | ⟨x, hx, he⟩
      · refine .inl ⟨?_, fun k x hk => ?_⟩
        · rw [hrun, hf.listed]
          show [i].foldlM s.step (s.listed code) = _
          rw [List.foldlM_cons, step, hf.effect]
          cases f <;> rfl
        · rcases fault_concat.1 hk with hk | ⟨_, hk⟩
          · exact hnone k x hk
          · exact hf.declared x hk
      · refine .inr ⟨x, ?_, code.length, fault_concat.2 (.inr ⟨rfl, hx⟩), fun j hj y hy => ?_⟩
        · rw [hrun]
          show [i].foldlM s.step (s.listed code) = _
          rw [List.foldlM_cons, step, he]
          rfl
        · rcases fault_concat.1 hy with hy | ⟨rfl, _⟩
          · exact hnone j y hy
          · exact Nat.lt_irrefl _ hj
    · -- The scan is over, and the fault stays the first one.
      refine .inr ⟨x, by rw [hrun]; rfl, k, fault_concat.2 (.inl hk), fun j hj y hy => ?_⟩
      rcases fault_concat.1 hy with hy | ⟨rfl, _⟩
      · exact hfirst j hj y hy
      · exact absurd (Nat.lt_trans hj hk.lt) (Nat.lt_irrefl _)

theorem Fault.append {k : Nat} {x : VarId} (h : s.Fault code k x) (rest : List Instruction) :
    s.Fault (code ++ rest) k x := by
  induction rest using List.reverseRecOn with
  | nil => rwa [List.append_nil]
  | append_singleton rest i ih =>
    rw [← List.append_assoc]
    exact fault_concat.2 (.inl ih)

/-- Going on behind code without a write, the scan meets the write where it stands. -/
theorem arrayWriteFrom?_listed (s : Subject) (rest code : List Instruction)
    (hnone : elementWrite? code = none) (hok : ∀ k x, ¬s.Fault (code ++ rest) k x) :
    s.arrayWriteFrom? (s.listed code) code.length rest = elementWrite? (code ++ rest) := by
  induction rest generalizing code with
  | nil => rw [List.append_nil, hnone, arrayWriteFrom?]
  | cons i rest ih =>
    have hcode : code ++ i :: rest = code ++ [i] ++ rest := by simp
    rw [hcode] at hok ⊢
    rcases s.goesOn code i with ⟨f, hf⟩ | ⟨x, hx, _⟩
    · by_cases hw : isNextWrite code i
      · rw [arrayWriteFrom?, hf.effect, hf.write.2 hw]
        exact (elementWrite?_append (elementWrite?_concat_length.2 hw) rest).symm
      · have hstill : elementWrite? (code ++ [i]) = none := by
          rw [elementWrite?_concat, if_neg hw, hnone]
        rw [← ih (code ++ [i]) hstill hok, arrayWriteFrom?, hf.effect, hf.listed,
          List.length_append, List.length_singleton]
        have hne : f ≠ some .arrayWrite := mt hf.write.1 hw
        rcases f with _ | f
        · rfl
        · cases f with
          | arrayWrite => exact absurd rfl hne
          | _ => rfl
    · have hfault := fault_concat.2 (.inr ⟨rfl, hx⟩)
      exact absurd (hfault.append rest) (hok code.length x)

/-- What is to be found in the body. -/
def findings (s : Subject) : Effects :=
  { s.listed s.body.code with
    checkedExceptions := (s.body.handlers.map Handler.exception).eraseDups }

theorem effects_spec (s : Subject) :
    (s.effects = .ok s.findings ∧ ∀ k x, ¬s.Fault s.body.code k x) ∨
      ∃ x, s.effects = .error (.unknownVariable s.ref x) ∧ s.FirstFault s.body.code x := by
  rcases s.scan_spec s.body.code with ⟨hrun, hnone⟩ | ⟨x, hrun, hx⟩
  · refine .inl ⟨?_, hnone⟩
    rw [effects, hrun, addAllNew_nil]
    rfl
  · refine .inr ⟨x, ?_, hx⟩
    rw [effects, hrun]
    rfl

theorem FirstFault.unique {x y : VarId} (hx : s.FirstFault code x) (hy : s.FirstFault code y) :
    x = y := by
  obtain ⟨j, hj, hjfirst⟩ := hx
  obtain ⟨k, hk, hkfirst⟩ := hy
  rcases Nat.lt_trichotomy j k with hlt | rfl | hlt
  · exact absurd hj (hkfirst j hlt x)
  · exact Option.some.inj (hj.inspects.symm.trans hk.inspects)
  · exact absurd hk (hjfirst k hlt y)

theorem effects_eq_ok_iff {e : Effects} :
    s.effects = .ok e ↔ (∀ k x, ¬s.Fault s.body.code k x) ∧ e = s.findings := by
  rcases s.effects_spec with ⟨hrun, hnone⟩ | ⟨x, hrun, k, hk, _⟩
  · rw [hrun]
    constructor
    · rintro ⟨⟩
      exact ⟨hnone, rfl⟩
    · rintro ⟨_, rfl⟩
      rfl
  · rw [hrun]
    constructor
    · rintro ⟨⟩
    · rintro ⟨hnone, _⟩
      exact absurd hk (hnone k x)

theorem effects_eq_error_iff {err : ModelError} :
    s.effects = .error err ↔
      ∃ x, s.FirstFault s.body.code x ∧ err = .unknownVariable s.ref x := by
  rcases s.effects_spec with ⟨hrun, hnone⟩ | ⟨x, hrun, hx⟩
  · rw [hrun]
    constructor
    · rintro ⟨⟩
    · rintro ⟨x, ⟨k, hk, _⟩, _⟩
      exact absurd hk (hnone k x)
  · rw [hrun]
    constructor
    · rintro ⟨⟩
      exact ⟨x, hx, rfl⟩
    · rintro ⟨y, hy, rfl⟩
      rw [hx.unique hy]

/-- A scan finds what is to be found in the body. It fails exactly if some instruction asks for the
type of a variable that is not declared, and names the variable of the first one. -/
theorem effects_exact (s : Subject) :
    (∀ err, s.effects = .error err ↔
      ∃ x, s.FirstFault s.body.code x ∧ err = .unknownVariable s.ref x) ∧
    (∀ e, s.effects = .ok e ↔ (∀ k x, ¬s.Fault s.body.code k x) ∧ e = s.findings) ∧
    (∀ e, s.effects = .ok e → s.arrayWrite? = elementWrite? s.body.code) := by
  refine ⟨fun err => effects_eq_error_iff, fun e => effects_eq_ok_iff, fun e he => ?_⟩
  exact s.arrayWriteFrom?_listed s.body.code [] rfl (effects_eq_ok_iff.1 he).1

/-! ## Objects of the superclass -/

theorem mem_objectCreations_listed {k : MethodRef} :
    k ∈ (s.listed code).objectCreations ↔
      s.chainsTo k.className = false ∧
        ∃ i, .invoke i ∈ code ∧ i.runsConstructor ∧ i.callee = k := by
  simp only [Subject.listed, List.mem_eraseDups, List.mem_filterMap]
  constructor
  · rintro ⟨i, hi, hk⟩
    cases i with
    | invoke i =>
      simp only [constructor?, Option.ite_none_right_eq_some, Bool.and_eq_true,
        Bool.not_eq_true', Option.some.injEq] at hk
      obtain ⟨⟨hr, hs⟩, rfl⟩ := hk
      exact ⟨hs, i, hi, hr, rfl⟩
    | _ => cases hk
  · rintro ⟨hs, i, hi, hr, rfl⟩
    exact ⟨.invoke i, hi, by simp [constructor?, hr, hs]⟩

/-- A creation is found unless a constructor makes it and its class is the direct superclass. The
receiver plays no part: an object of the superclass that a constructor creates is lost along with
the call that it starts its own object with. -/
theorem creation_found_iff {e : Effects} (he : s.effects = .ok e) {i : Invocation}
    (hi : .invoke i ∈ s.body.code) (hr : i.runsConstructor) :
    i.callee ∈ e.objectCreations ↔
      ¬(s.method.isConstructor ∧ s.owner.superclass = some i.callee.className) := by
  obtain ⟨_, rfl⟩ := effects_eq_ok_iff.1 he
  have hchain : s.chainsTo i.callee.className = false ↔
      ¬(s.method.isConstructor ∧ s.owner.superclass = some i.callee.className) := by
    rw [← Bool.not_eq_true, chainsTo, Bool.and_eq_true, decide_eq_true_iff]
  calc i.callee ∈ s.findings.objectCreations
    _ ↔ s.chainsTo i.callee.className = false ∧
          ∃ j, .invoke j ∈ s.body.code ∧ j.runsConstructor ∧ j.callee = i.callee :=
        mem_objectCreations_listed
    _ ↔ s.chainsTo i.callee.className = false := and_iff_left ⟨i, hi, hr, rfl⟩
    _ ↔ _ := hchain

end Subject

namespace Sample

/-- The constructor of a class that starts its object by a constructor of the superclass, and then
creates one more object of the superclass and one of another class. -/
def delegatingBody : Body :=
  ⟨[⟨"a", .reference "A"⟩, ⟨"b", .reference "B"⟩, ⟨"c", .reference "C"⟩],
    [.bind 0 .this, .invoke ⟨.special, ⟨"B", "<init>", [], .void⟩, some 0, []⟩,
      .assign (.var 1) (.new "B"),
      .invoke ⟨.special, ⟨"B", "<init>", [.primitive .int], .void⟩, some 1, [.const (.int 7)]⟩,
      .assign (.var 2) (.new "C"), .invoke ⟨.special, ⟨"C", "<init>", [], .void⟩, some 2, []⟩,
      .ret none],
    []⟩

/-- The constructor with `delegatingBody` in its class. -/
def delegating : Subject where
  owner := library "A" (some "B") [method "<init>" [] false (some delegatingBody)]
  method := method "<init>" [] false (some delegatingBody)
  body := delegatingBody

end Sample

theorem creation_found_iff_delegating :
    ∃ e, Sample.delegating.effects = .ok e ∧
      ∀ i ∈ [⟨.special, ⟨"B", "<init>", [.primitive .int], .void⟩, some 1, [.const (.int 7)]⟩,
        ⟨.special, ⟨"C", "<init>", [], .void⟩, some 2, []⟩],
        .invoke i ∈ Sample.delegatingBody.code ∧ i.runsConstructor ∧
          (i.callee ∈ e.objectCreations ↔
            ¬(Sample.delegating.method.isConstructor ∧
              Sample.delegating.owner.superclass = some i.callee.className)) := by
  refine ⟨_, rfl, fun i hi => ?_⟩
  have hcode : .invoke i ∈ Sample.delegatingBody.code ∧ i.runsConstructor := by
    simp only [List.mem_cons, List.not_mem_nil, or_false] at hi
    rcases hi with rfl | rfl <;> decide
  exact ⟨hcode.1, hcode.2, Subject.creation_found_iff rfl hcode.1 hcode.2⟩

/-- A constructor creates an object of its superclass in a declared variable that does not hold the
object under construction, and the scan does not find it. -/
theorem superclass_creation_lost :
    ∃ (s : Subject) (e : Effects) (i : Invocation) (x : VarId),
      s.effects = .ok e ∧ s.method.isConstructor ∧
        s.owner.superclass = some i.callee.className ∧ .invoke i ∈ s.body.code ∧
        i.runsConstructor ∧ i.receiver = some x ∧ s.body.typeOf? x = some (.reference "B") ∧
        .assign (.var x) (.new "B") ∈ s.body.code ∧ .bind x .this ∉ s.body.code ∧
        i.callee ∉ e.objectCreations := by
  refine ⟨Sample.delegating, _,
    ⟨.special, ⟨"B", "<init>", [.primitive .int], .void⟩, some 1, [.const (.int 7)]⟩, 1, rfl, ?_⟩
  decide

end Standin
