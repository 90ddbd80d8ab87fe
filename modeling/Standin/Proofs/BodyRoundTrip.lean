import Standin.Proofs.Reread

/-!
# Bodies are read back

One lemma for each kind of syntax that a body has: what was read is written in a form that is read
back, up to its floating-point constants, and that has a text. The number in each `rereads` is the
room that the kind needs, whatever was left out of the text it was read from.
-/

namespace Standin

open Decoder

/-! ## Texts and integers -/

namespace Decoder

theorem rereads_string : string.Rereads .string (fun _ => []) 0 := by
  intro room j s _ h
  cases j with
  | string t =>
    rw [← Option.some.inj h]
    exact .pure t
  | _ => cases h

theorem rereads_bool : bool.Rereads .bool (fun _ => []) 0 := by
  intro room j b _ h
  cases j with
  | bool c =>
    rw [← Option.some.inj h]
    exact .pure c
  | _ => cases h

theorem int_eq_some {lo hi n : ℤ} {room : ℕ} {j : Json} (h : int lo hi room j = some n) :
    lo ≤ n ∧ n < hi := by
  unfold int at h
  split at h
  · split at h
    · next hn =>
      rw [← Option.some.inj h]
      exact hn
    · cases h
  · cases h

theorem int_int {lo hi n : ℤ} (hlo : lo ≤ n) (hhi : n < hi) (room : ℕ) :
    int lo hi room (.int n) = some n := by
  rw [int, if_pos ⟨hlo, hhi⟩]

/-- Integers of a fixed width are told by the number that they are written as. -/
theorem rereads_int_map {α : Type} {lo hi : ℤ} {f : ℤ → α} {w : α → ℤ}
    (h : ∀ n, lo ≤ n → n < hi → w (f n) = n) :
    Rereads (fun room j => (int lo hi room j).map f) (fun x => .int (w x)) (fun _ => []) 0 := by
  intro room j x _ hx
  obtain ⟨n, hn, rfl⟩ := Option.map_eq_some_iff.1 hx
  obtain ⟨hlo, hhi⟩ := int_eq_some hn
  show ReadsBack [] (f n) ((int lo hi room (.int (w (f n)))).map f)
  rw [h n hlo hhi, int_int hlo hhi]
  exact .pure (f n)

theorem rereads_nat_map {α : Type} {bound : ℕ} {f : ℕ → α} {w : α → ℕ}
    (h : ∀ n < bound, w (f n) = n) :
    Rereads (fun room j => (nat bound room j).map f) (fun x => .int (w x)) (fun _ => []) 0 := by
  simp only [nat, Option.map_map]
  refine rereads_int_map fun n hlo hhi => ?_
  rw [Function.comp_apply, h n.toNat (by omega), Int.toNat_of_nonneg hlo]

theorem rereads_nat (bound : ℕ) : (nat bound).Rereads (fun n => .int n) (fun _ => []) 0 := by
  have h := @rereads_nat_map ℕ bound id id fun _ _ => rfl
  simpa using h

theorem rereads_uint8 : uint8.Rereads (fun v => .int v.toNat) (fun _ => []) 0 :=
  rereads_nat_map fun _ hn => UInt8.toNat_ofNat_of_lt hn

theorem rereads_uint16 : uint16.Rereads (fun v => .int v.toNat) (fun _ => []) 0 :=
  rereads_nat_map fun _ hn => UInt16.toNat_ofNat_of_lt hn

theorem rereads_int32 : int32.Rereads (fun v => .int v.toInt) (fun _ => []) 0 :=
  rereads_int_map fun _ hlo hhi => Int32.toInt_ofInt_of_le hlo hhi

theorem rereads_int64 : int64.Rereads (fun v => .int v.toInt) (fun _ => []) 0 :=
  rereads_int_map fun _ hlo hhi => Int64.toInt_ofInt_of_le hlo hhi

/-- A tag to which nothing belongs, read from a list of all words. -/
theorem rereads_keyword {α : Type} {all : List α} {word : α → String}
    (h : ∀ x ∈ all, all.find? (fun y => word y = word x) = some x) :
    (keyword fun tag => all.find? fun x => word x = tag).Rereads (fun x => .string (word x))
      (fun _ => []) 0 := by
  intro room j x _ hx
  obtain ⟨tag, htag⟩ := exists_of_keyword hx
  exact .of_eq_some (h x (List.mem_of_find?_eq_some htag)) (by simp)

end Decoder

/-! ## Types -/

theorem Primitive.rereads : Primitive.decoder.Rereads Primitive.toJson (fun _ => []) 0 :=
  rereads_keyword (by decide)

theorem ValueType.rereads : ValueType.decoder.Rereads ValueType.toJson (fun _ => []) 0 := by
  intro room j t _ h
  refine .of_eq_some ?_ (by simp)
  fun_induction ValueType.decoder room j generalizing t with
  | case1 room j =>
    obtain ⟨p, hp, rfl⟩ := Option.map_eq_some_iff.1 h
    rw [toJson, decoder, (Primitive.rereads (Nat.zero_le room) hp).eq]
    rfl
  | case2 room j =>
    obtain ⟨c, hc, rfl⟩ := Option.map_eq_some_iff.1 h
    rw [toJson, decoder, (rereads_string (Nat.zero_le room) hc).eq]
    rfl
  | case3 room j base n hj ih =>
    simp only [Option.bind_eq_bind, Option.bind_eq_some_iff, Option.pure_def,
      Option.some.injEq] at h
    obtain ⟨b, hb, d, hd, rfl⟩ := h
    have hfields : (Json.object [("base", toJson b), ("dimensions", .int d.toNat)]).fields?
        ["base", "dimensions"] = _ := Json.fields?_eq rfl (by decide)
    rw [toJson, decoder, hfields]
    simp [ih (Nat.zero_le room) hb, (rereads_uint8 (Nat.zero_le room) hd).eq]
  | case4 => cases h
  | case5 => cases h

theorem ResultType.rereads : ResultType.decoder.Rereads ResultType.toJson (fun _ => []) 1 := by
  refine Rereads.keywordOrTagged ?_ ?_
  · intro tag x h
    split at h
    · next htag =>
      rw [← Option.some.inj h]
      exact ⟨⟨"void", rfl, rfl⟩, by simp⟩
    · cases h
  · intro tag d h
    split at h
    · next htag =>
      rw [← Option.some.inj h]
      subst htag
      exact ⟨rfl, .map ValueType.rereads le_rfl (fun _ => rfl) fun _ => rfl⟩
    · cases h

theorem MethodRef.rereads : MethodRef.decoder.Rereads MethodRef.toJson (fun _ => []) 2 := by
  refine Rereads.record fun {room fs m} hroom hm => ?_
  split at hm
  · next c n ps r =>
    simp only [Option.bind_eq_bind, Option.bind_eq_some_iff, Option.pure_def,
      Option.some.injEq] at hm
    obtain ⟨className, hc, name, hn, params, hps, result, hr, rfl⟩ := hm
    refine ⟨_, Json.fields?_eq rfl (by decide), ?_⟩
    have h := (rereads_string.required (Nat.zero_le room) hc).bind fun c =>
      (rereads_string.required (Nat.zero_le room) hn).bind fun n =>
      (ValueType.rereads.listField hroom hps).bind fun ps =>
      (ResultType.rereads.required hroom hr).bind fun r => .pure (MethodRef.mk c n ps r)
    exact h.congr (by simp)
  · cases hm

theorem FieldRef.rereads : FieldRef.decoder.Rereads FieldRef.toJson (fun _ => []) 1 := by
  refine Rereads.record fun {room fs f} hroom hf => ?_
  split at hf
  · next c n t =>
    simp only [Option.bind_eq_bind, Option.bind_eq_some_iff, Option.pure_def,
      Option.some.injEq] at hf
    obtain ⟨className, hc, name, hn, type, ht, rfl⟩ := hf
    refine ⟨_, Json.fields?_eq rfl (by decide), ?_⟩
    exact (rereads_string.required hroom hc).bind fun c =>
      (rereads_string.required hroom hn).bind fun n =>
      (ValueType.rereads.required hroom ht).bind fun t => .pure (FieldRef.mk c n t)
  · cases hf

theorem Variable.rereads : Variable.decoder.Rereads Variable.toJson (fun _ => []) 1 := by
  refine Rereads.record fun {room fs v} hroom hv => ?_
  split at hv
  · next n t =>
    simp only [Option.bind_eq_bind, Option.bind_eq_some_iff, Option.pure_def,
      Option.some.injEq] at hv
    obtain ⟨name, hn, type, ht, rfl⟩ := hv
    refine ⟨_, Json.fields?_eq rfl (by decide), ?_⟩
    exact (rereads_string.required hroom hn).bind fun n =>
      (ValueType.rereads.required hroom ht).bind fun t => .pure (Variable.mk n t)
  · cases hv

theorem VarId.rereads : VarId.decoder.Rereads VarId.toJson (fun _ => []) 0 :=
  rereads_nat _

theorem rereads_target : targetDecoder.Rereads (fun t => .int t) (fun _ => []) 0 :=
  rereads_nat _

/-! ## Constants and operands -/

/-- A 32-bit number comes back as some number if it is finite, and not at all otherwise. -/
theorem Constant.arm_float :
    Arm Constant.toJson (fun c => [c]) 0 "float" fun _ j => j.single?.map float := by
  intro room j c _ hc
  obtain ⟨v, -, rfl⟩ := Option.map_eq_some_iff.1 hc
  refine ⟨_, rfl, ⟨?_, fun h => ?_⟩⟩
  · rw [Option.isSome_map, Json.isSome_single?_ofSingle]
    simp
  · exact absurd (h _ List.mem_cons_self) (by simp [isFloating])

/-- A 64-bit number that was read is finite, so it comes back as some number. -/
theorem Constant.arm_double :
    Arm Constant.toJson (fun c => [c]) 0 "double" fun _ j => j.double?.map double := by
  intro room j c _ hc
  obtain ⟨v, hv, rfl⟩ := Option.map_eq_some_iff.1 hc
  refine ⟨_, rfl, ⟨?_, fun h => ?_⟩⟩
  · rw [Option.isSome_map]
    exact iff_of_true (Json.isSome_double?_ofDouble (Json.isFinite_of_double? hv)) (by simp)
  · exact absurd (h _ List.mem_cons_self) (by simp [isFloating])

theorem Constant.rereads : Constant.decoder.Rereads Constant.toJson (fun c => [c]) 1 := by
  refine Rereads.keywordOrTagged ?_ ?_
  · intro tag c h
    split at h
    · rw [← Option.some.inj h]
      exact ⟨⟨"null", rfl, rfl⟩, by simp⟩
    · cases h
  · intro tag d h
    split at h <;> cases h
    · exact ⟨rfl, .plain rereads_int32 le_rfl (fun _ => rfl) (by simp)⟩
    · exact ⟨rfl, .plain rereads_int64 le_rfl (fun _ => rfl) (by simp)⟩
    · exact ⟨rfl, arm_float⟩
    · exact ⟨rfl, arm_double⟩
    · exact ⟨rfl, .plain rereads_string le_rfl (fun _ => rfl) (by simp)⟩
    · exact ⟨rfl, .plain ValueType.rereads le_rfl (fun _ => rfl) (by simp)⟩

/-- The constant that the operand is. -/
def Operand.constants : Operand → List Constant
  | var _ => []
  | const c => [c]

theorem Operand.rereads : Operand.decoder.Rereads Operand.toJson Operand.constants 2 := by
  refine Rereads.tagged fun tag d h => ?_
  split at h <;> cases h
  · exact .plain VarId.rereads (Nat.zero_le 1) (fun _ => rfl) (by simp [constants])
  · exact .map Constant.rereads le_rfl (fun _ => rfl) fun _ => rfl

/-! ## Calls, values and places -/

theorem Dispatch.rereads : Dispatch.decoder.Rereads Dispatch.toJson (fun _ => []) 0 :=
  rereads_keyword (by decide)

/-- The constants among the arguments. -/
def Invocation.constants (i : Invocation) : List Constant :=
  i.args.flatMap Operand.constants

theorem Invocation.rereads :
    Invocation.decoder.Rereads Invocation.toJson Invocation.constants 4 := by
  refine Rereads.record fun {room fs i} hroom hi => ?_
  split at hi
  · next k c b as =>
    simp only [Option.bind_eq_bind, Option.bind_eq_some_iff, Option.pure_def,
      Option.some.injEq] at hi
    obtain ⟨dispatch, hk, callee, hc, receiver, hb, args, has, rfl⟩ := hi
    refine ⟨_, Json.fields?_omitted rfl (by decide), ?_⟩
    have h := (Dispatch.rereads.required (Nat.zero_le room) hk).bind fun k =>
      (MethodRef.rereads.required (by omega) hc).bind fun c =>
      (VarId.rereads.optionalField (by simp [VarId.toJson]) (Nat.zero_le room) hb).bind fun b =>
      (Operand.rereads.listField hroom has).bind fun as => .pure (Invocation.mk k c b as)
    exact h.congr (by cases receiver <;> simp [constants])
  · cases hi

theorem BinaryOp.rereads : BinaryOp.decoder.Rereads BinaryOp.toJson (fun _ => []) 0 :=
  rereads_keyword (by decide)

theorem rereads_element : elementDecoder.Rereads (fun e => elementJson e.1 e.2)
    (fun e => e.2.constants) 3 := by
  refine Rereads.record fun {room fs e} hroom he => ?_
  split at he
  · next b i =>
    simp only [Option.bind_eq_bind, Option.bind_eq_some_iff, Option.pure_def,
      Option.some.injEq] at he
    obtain ⟨base, hb, index, hi, rfl⟩ := he
    refine ⟨_, Json.fields?_eq rfl (by decide), ?_⟩
    have h := (VarId.rereads.required (Nat.zero_le room) hb).bind fun b =>
      (Operand.rereads.required hroom hi).bind fun i => .pure (b, i)
    exact h.congr (by simp)
  · cases he

theorem rereads_instanceField : instanceFieldDecoder.Rereads (fun e => instanceFieldJson e.1 e.2)
    (fun _ => []) 2 := by
  refine Rereads.record fun {room fs e} hroom he => ?_
  split at he
  · next b f =>
    simp only [Option.bind_eq_bind, Option.bind_eq_some_iff, Option.pure_def,
      Option.some.injEq] at he
    obtain ⟨base, hb, field, hf, rfl⟩ := he
    refine ⟨_, Json.fields?_eq rfl (by decide), ?_⟩
    exact (VarId.rereads.required (Nat.zero_le room) hb).bind fun b =>
      (FieldRef.rereads.required hroom hf).bind fun f => .pure (b, f)
  · cases he

/-- The constants that the value is made from. -/
def Expr.constants : Expr → List Constant
  | use o => o.constants
  | newArray _ lengths => lengths.flatMap Operand.constants
  | cast o _ => o.constants
  | arrayElement _ index => index.constants
  | invoke call => call.constants
  | binary _ left right => left.constants ++ right.constants
  | new _ | staticField _ | instanceField _ _ => []

namespace Expr

theorem arm_newArray : Arm toJson constants 4 "new_array" newArrayDecoder := by
  refine Arm.record fun {room fs e} hroom he => ?_
  split at he
  · next t ls =>
    simp only [Option.bind_eq_bind, Option.bind_eq_some_iff, Option.pure_def,
      Option.some.injEq] at he
    obtain ⟨type, ht, lengths, hls, rfl⟩ := he
    refine ⟨_, _, rfl, Json.fields?_eq rfl (by decide), ?_⟩
    have h := (ValueType.rereads.required (Nat.zero_le room) ht).bind fun t =>
      (Operand.rereads.list.required hroom hls).bind fun ls => .pure (newArray t ls)
    exact h.congr (by simp [constants])
  · cases he

theorem arm_cast : Arm toJson constants 4 "cast" castDecoder := by
  refine Arm.record fun {room fs e} hroom he => ?_
  split at he
  · next o t =>
    simp only [Option.bind_eq_bind, Option.bind_eq_some_iff, Option.pure_def,
      Option.some.injEq] at he
    obtain ⟨operand, ho, target, ht, rfl⟩ := he
    refine ⟨_, _, rfl, Json.fields?_eq rfl (by decide), ?_⟩
    have h := (Operand.rereads.required (by omega) ho).bind fun o =>
      (ValueType.rereads.required (Nat.zero_le room) ht).bind fun t => .pure (cast o t)
    exact h.congr (by simp [constants])
  · cases he

theorem arm_binary : Arm toJson constants 4 "binary" binaryDecoder := by
  refine Arm.record fun {room fs e} hroom he => ?_
  split at he
  · next op l r =>
    simp only [Option.bind_eq_bind, Option.bind_eq_some_iff, Option.pure_def,
      Option.some.injEq] at he
    obtain ⟨op, hop, left, hl, right, hr, rfl⟩ := he
    refine ⟨_, _, rfl, Json.fields?_eq rfl (by decide), ?_⟩
    have h := (BinaryOp.rereads.required (Nat.zero_le room) hop).bind fun op =>
      (Operand.rereads.required (by omega) hl).bind fun l =>
      (Operand.rereads.required (by omega) hr).bind fun r => .pure (binary op l r)
    exact h.congr (by simp [constants])
  · cases he

theorem rereads : decoder.Rereads toJson constants 5 := by
  refine Rereads.tagged fun tag d h => ?_
  split at h <;> cases h
  · exact .map Operand.rereads (by decide) (fun _ => rfl) fun _ => rfl
  · exact .plain rereads_string (by decide) (fun _ => rfl) (by simp [constants])
  · exact arm_newArray
  · exact arm_cast
  · exact .plain FieldRef.rereads (by decide) (fun _ => rfl) (by simp [constants])
  · exact .plain rereads_instanceField (by decide) (fun _ => rfl) (by simp [constants])
  · exact .map rereads_element (by decide) (fun _ => rfl) fun _ => rfl
  · exact .map Invocation.rereads le_rfl (fun _ => rfl) fun _ => rfl
  · exact arm_binary

end Expr

/-- The constant that the index of an array element may be. -/
def Place.constants : Place → List Constant
  | arrayElement _ index => index.constants
  | var _ | staticField _ | instanceField _ _ => []

theorem Place.rereads : Place.decoder.Rereads Place.toJson Place.constants 4 := by
  refine Rereads.tagged fun tag d h => ?_
  split at h <;> cases h
  · exact .plain VarId.rereads (by decide) (fun _ => rfl) (by simp [constants])
  · exact .map rereads_element le_rfl (fun _ => rfl) fun _ => rfl
  · exact .plain FieldRef.rereads (by decide) (fun _ => rfl) (by simp [constants])
  · exact .plain rereads_instanceField (by decide) (fun _ => rfl) (by simp [constants])

/-! ## Instructions -/

theorem Incoming.rereads : Incoming.decoder.Rereads Incoming.toJson (fun _ => []) 1 := by
  refine Rereads.keywordOrTagged ?_ ?_
  · intro tag x h
    split at h <;> cases h
    · exact ⟨⟨"this", rfl, rfl⟩, by simp⟩
    · exact ⟨⟨"caught_exception", rfl, rfl⟩, by simp⟩
  · intro tag d h
    split at h <;> cases h
    next htag =>
    subst htag
    exact ⟨rfl, .map rereads_uint16 le_rfl (fun _ => rfl) fun _ => rfl⟩

/-- The constants that the instruction reads. -/
def Instruction.constants : Instruction → List Constant
  | assign dest value => dest.constants ++ value.constants
  | invoke call => call.constants
  | throw value => value.constants
  | branch condition _ => condition.constants
  | ret value => value.elim [] Operand.constants
  | bind _ _ | goto _ | nop => []

namespace Instruction

theorem arm_bind : Arm toJson constants 6 "identity" bindDecoder := by
  refine Arm.record fun {room fs i} hroom hi => ?_
  split at hi
  · next d s =>
    simp only [Option.bind_eq_bind, Option.bind_eq_some_iff, Option.pure_def,
      Option.some.injEq] at hi
    obtain ⟨dest, hd, source, hs, rfl⟩ := hi
    refine ⟨_, _, rfl, Json.fields?_eq rfl (by decide), ?_⟩
    exact (VarId.rereads.required (Nat.zero_le room) hd).bind fun d =>
      (Incoming.rereads.required (by omega) hs).bind fun s => .pure (bind d s)
  · cases hi

theorem arm_assign : Arm toJson constants 6 "assign" assignDecoder := by
  refine Arm.record fun {room fs i} hroom hi => ?_
  split at hi
  · next d v =>
    simp only [Option.bind_eq_bind, Option.bind_eq_some_iff, Option.pure_def,
      Option.some.injEq] at hi
    obtain ⟨dest, hd, value, hv, rfl⟩ := hi
    refine ⟨_, _, rfl, Json.fields?_eq rfl (by decide), ?_⟩
    have h := (Place.rereads.required (by omega) hd).bind fun d =>
      (Expr.rereads.required hroom hv).bind fun v => .pure (assign d v)
    exact h.congr (by simp [constants])
  · cases hi

theorem arm_branch : Arm toJson constants 6 "if" branchDecoder := by
  refine Arm.record fun {room fs i} hroom hi => ?_
  split at hi
  · next c t =>
    simp only [Option.bind_eq_bind, Option.bind_eq_some_iff, Option.pure_def,
      Option.some.injEq] at hi
    obtain ⟨condition, hc, target, ht, rfl⟩ := hi
    refine ⟨_, _, rfl, Json.fields?_eq rfl (by decide), ?_⟩
    have h := (Operand.rereads.required (by omega) hc).bind fun c =>
      (rereads_target.required (Nat.zero_le room) ht).bind fun t => .pure (branch c t)
    exact h.congr (by simp [constants])
  · cases hi

theorem rereads : decoder.Rereads toJson constants 7 := by
  refine Rereads.keywordOrTagged ?_ ?_
  · intro tag i h
    split at h <;> cases h
    exact ⟨⟨"nop", rfl, rfl⟩, by simp [constants]⟩
  · intro tag d h
    have hoperand : ∀ o : Operand, o.toJson ≠ .null := by
      intro o
      cases o <;> simp [Operand.toJson]
    split at h <;> cases h
    · exact ⟨rfl, arm_bind⟩
    · exact ⟨rfl, arm_assign⟩
    · exact ⟨rfl, .map Invocation.rereads (by decide) (fun _ => rfl) fun _ => rfl⟩
    · exact ⟨rfl, .map Operand.rereads (by decide) (fun _ => rfl) fun _ => rfl⟩
    · exact ⟨rfl, arm_branch⟩
    · exact ⟨rfl, .plain rereads_target (by decide) (fun _ => rfl) (by simp [constants])⟩
    · exact ⟨rfl, .map (Operand.rereads.optional hoperand) (by decide) (fun _ => rfl) fun _ => rfl⟩

end Instruction

/-! ## Bodies -/

theorem Handler.rereads : Handler.decoder.Rereads Handler.toJson (fun _ => []) 1 := by
  refine Rereads.record fun {room fs h} hroom hh => ?_
  split at hh
  · next e b s h =>
    simp only [Option.bind_eq_bind, Option.bind_eq_some_iff, Option.pure_def,
      Option.some.injEq] at hh
    obtain ⟨exception, he, start, hb, stop, hs, entry, hh, rfl⟩ := hh
    refine ⟨_, Json.fields?_eq rfl (by decide), ?_⟩
    exact (rereads_string.required hroom he).bind fun e =>
      (rereads_target.required hroom hb).bind fun b =>
      (rereads_target.required hroom hs).bind fun s =>
      (rereads_target.required hroom hh).bind fun h => .pure (Handler.mk e b s h)
  · cases hh

/-- The constants in the code. -/
def Body.constants (b : Body) : List Constant :=
  b.code.flatMap Instruction.constants

theorem Body.rereads : Body.decoder.Rereads Body.toJson Body.constants 9 := by
  refine Rereads.record fun {room fs b} hroom hb => ?_
  split at hb
  · next vs is hs =>
    simp only [Option.bind_eq_bind, Option.bind_eq_some_iff, Option.pure_def,
      Option.some.injEq] at hb
    obtain ⟨declared, hvs, code, his, handlers, hhs, rfl⟩ := hb
    refine ⟨_, Json.fields?_eq rfl (by decide), ?_⟩
    have h := (Variable.rereads.listField (by omega) hvs).bind fun vs =>
      (Instruction.rereads.listField hroom his).bind fun is =>
      (Handler.rereads.listField (by omega) hhs).bind fun hs => .pure (Body.mk vs is hs)
    exact h.congr (by simp [constants])
  · cases hb

/-! ## Texts -/

@[simp]
theorem ValueType.isWritable_toJson (t : ValueType) : t.toJson.IsWritable := by
  induction t with
  | primitive p => simp [toJson, Primitive.toJson]
  | reference c => simp [toJson]
  | array base n ih => simp [toJson, ih]

@[simp]
theorem ResultType.isWritable_toJson (r : ResultType) : r.toJson.IsWritable := by
  cases r <;> simp [toJson]

@[simp]
theorem MethodRef.isWritable_toJson (m : MethodRef) : m.toJson.IsWritable := by
  simp [toJson]

@[simp]
theorem FieldRef.isWritable_toJson (f : FieldRef) : f.toJson.IsWritable := by
  simp [toJson]

@[simp]
theorem VarId.isWritable_toJson (x : VarId) : (VarId.toJson x).IsWritable := by
  simp [toJson]

@[simp]
theorem Variable.isWritable_toJson (v : Variable) : v.toJson.IsWritable := by
  simp [toJson]

@[simp]
theorem Constant.isWritable_toJson (c : Constant) : c.toJson.IsWritable := by
  have hsingle : ∀ v, (Json.ofSingle v).IsWritable :=
    fun v => Json.isWritable_ofBinary (by decide) _ _
  have hdouble : ∀ v, (Json.ofDouble v).IsWritable :=
    fun v => Json.isWritable_ofBinary (by decide) _ _
  cases c <;> simp [toJson, hsingle, hdouble]

@[simp]
theorem Operand.isWritable_toJson (o : Operand) : o.toJson.IsWritable := by
  cases o <;> simp [toJson]

@[simp]
theorem Invocation.isWritable_toJson (i : Invocation) : i.toJson.IsWritable := by
  obtain ⟨dispatch, callee, receiver, args⟩ := i
  cases receiver <;> simp [toJson, Dispatch.toJson]

@[simp]
theorem Expr.isWritable_toJson (e : Expr) : e.toJson.IsWritable := by
  cases e <;> simp [toJson, elementJson, instanceFieldJson, BinaryOp.toJson]

@[simp]
theorem Place.isWritable_toJson (p : Place) : p.toJson.IsWritable := by
  cases p <;> simp [toJson, elementJson, instanceFieldJson]

@[simp]
theorem Instruction.isWritable_toJson (i : Instruction) : i.toJson.IsWritable := by
  cases i with
  | bind dest source => cases source <;> simp [toJson, Incoming.toJson]
  | ret value => cases value <;> simp [toJson]
  | _ => simp [toJson]

@[simp]
theorem Body.isWritable_toJson (b : Body) : b.toJson.IsWritable := by
  simp [toJson, Handler.toJson]

end Standin
