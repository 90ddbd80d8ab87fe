import Standin.Program.Codec
import Standin.Proofs.BodyRoundTrip

/-!
# Models are read back

The written form of a program that was read gives the program again, unless it holds floating-point
constants. A finite one may come back rounded, an infinite one makes the whole text unreadable, and
nothing else does.
-/

namespace Standin

open Decoder

/-! ## Declarations -/

theorem FieldDecl.rereads : FieldDecl.decoder.Rereads FieldDecl.toJson (fun _ => []) 1 := by
  refine Rereads.record fun {room fs f} hroom hf => ?_
  split at hf
  · next n t s =>
    simp only [Option.bind_eq_bind, Option.bind_eq_some_iff, Option.pure_def,
      Option.some.injEq] at hf
    obtain ⟨name, hn, type, ht, isStatic, hs, rfl⟩ := hf
    refine ⟨_, Json.fields?_eq rfl (by decide), ?_⟩
    exact (rereads_string.required hroom hn).bind fun n =>
      (ValueType.rereads.required hroom ht).bind fun t =>
      (rereads_bool.withDefault hroom (.pure false) hs).bind fun s => .pure (FieldDecl.mk n t s)
  · cases hf

/-- The constants in the body, if there is one. -/
def MethodDecl.constants (m : MethodDecl) : List Constant :=
  m.body.elim [] Body.constants

theorem MethodDecl.rereads :
    MethodDecl.decoder.Rereads MethodDecl.toJson MethodDecl.constants 10 := by
  refine Rereads.record fun {room fs m} hroom hm => ?_
  split at hm
  · next n ps r s a nat b =>
    simp only [Option.bind_eq_bind, Option.bind_eq_some_iff, Option.pure_def,
      Option.some.injEq] at hm
    obtain ⟨name, hn, params, hps, result, hr, isStatic, hs, isAbstract, ha, isNative, hnat, body,
      hb, rfl⟩ := hm
    refine ⟨_, Json.fields?_omitted_last rfl (by decide), ?_⟩
    have h := (rereads_string.required (Nat.zero_le room) hn).bind fun n =>
      (ValueType.rereads.listField (by omega) hps).bind fun ps =>
      (ResultType.rereads.required (by omega) hr).bind fun r =>
      (rereads_bool.withDefault (Nat.zero_le room) (.pure false) hs).bind fun s =>
      (rereads_bool.withDefault (Nat.zero_le room) (.pure false) ha).bind fun a =>
      (rereads_bool.withDefault (Nat.zero_le room) (.pure false) hnat).bind fun nat =>
      (Body.rereads.optionalField (by simp [Body.toJson]) hroom hb).bind fun b =>
        .pure (MethodDecl.mk n ps r s a nat b)
    exact h.congr (by simp [constants])
  · cases hm

/-- The constants in the bodies of the methods. -/
def ClassDecl.constants (c : ClassDecl) : List Constant :=
  c.methods.flatMap MethodDecl.constants

theorem ClassDecl.rereads : ClassDecl.decoder.Rereads ClassDecl.toJson ClassDecl.constants 12 := by
  refine Rereads.record fun {room fs c} hroom hc => ?_
  split at hc
  · next n s is i a fs ms =>
    simp only [Option.bind_eq_bind, Option.bind_eq_some_iff, Option.pure_def,
      Option.some.injEq] at hc
    obtain ⟨name, hn, superclass, hs, interfaces, his, isInterface, hi, isApplication, ha, fields,
      hfs, methods, hms, rfl⟩ := hc
    refine ⟨_, Json.fields?_omitted rfl (by decide), ?_⟩
    have h := (rereads_string.required (Nat.zero_le room) hn).bind fun n =>
      (rereads_string.optionalField (by simp) (Nat.zero_le room) hs).bind fun s =>
      (rereads_string.listField (by omega) his).bind fun is =>
      (rereads_bool.withDefault (Nat.zero_le room) (.pure false) hi).bind fun i =>
      (rereads_bool.withDefault (Nat.zero_le room) (.pure false) ha).bind fun a =>
      (FieldDecl.rereads.listField (by omega) hfs).bind fun fs =>
      (MethodDecl.rereads.listField hroom hms).bind fun ms => .pure (ClassDecl.mk n s is i a fs ms)
    exact h.congr (by cases superclass <;> simp [constants])
  · cases hc

@[simp]
theorem FieldDecl.isWritable_toJson (f : FieldDecl) : f.toJson.IsWritable := by
  simp [toJson]

@[simp]
theorem MethodDecl.isWritable_toJson (m : MethodDecl) : m.toJson.IsWritable := by
  obtain ⟨name, params, result, isStatic, isAbstract, isNative, body⟩ := m
  cases body <;> simp [toJson]

@[simp]
theorem ClassDecl.isWritable_toJson (c : ClassDecl) : c.toJson.IsWritable := by
  obtain ⟨name, superclass, interfaces, isInterface, isApplication, fields, methods⟩ := c
  cases superclass <;> simp [toJson]

/-! ## Programs -/

theorem ClassDecl.mem_insertInto {c d : ClassDecl} {cs : List ClassDecl} (h : d ∈ c.insertInto cs) :
    d ∈ cs ∨ d = c := by
  unfold insertInto at h
  split at h
  · obtain ⟨d', hd', rfl⟩ := List.mem_map.1 h
    split
    · exact .inr rfl
    · exact .inl hd'
  · rcases List.mem_append.1 h with h | h
    · exact .inl h
    · exact .inr (List.mem_singleton.1 h)

namespace Program

theorem mem_foldl_insert {d : ClassDecl} {cs : List ClassDecl} {p : Program}
    (h : d ∈ (cs.foldl insert p).classes) : d ∈ p.classes ∨ d ∈ cs := by
  induction cs generalizing p with
  | nil => exact .inl h
  | cons c cs ih =>
    rcases ih h with h | h
    · rcases ClassDecl.mem_insertInto h with h | rfl
      · exact .inl h
      · exact .inr List.mem_cons_self
    · exact .inr (List.mem_cons_of_mem c h)

theorem classes_ofClasses_subset (cs : List ClassDecl) : (ofClasses cs).classes ⊆ cs := by
  intro d hd
  rcases mem_foldl_insert hd with h | h
  · cases h
  · exact h

/-- Classes of new names are added behind the others. -/
theorem classes_foldl_insert {cs : List ClassDecl} {p : Program}
    (h : ((p.classes ++ cs).map ClassDecl.name).Nodup) :
    (cs.foldl insert p).classes = p.classes ++ cs := by
  induction cs generalizing p with
  | nil => simp
  | cons c cs ih =>
    have hnew : (p.insert c).classes = p.classes ++ [c] := by
      show c.insertInto p.classes = _
      rw [ClassDecl.insertInto, if_neg]
      rw [List.map_append, List.map_cons] at h
      have hc := (List.nodup_middle.1 h).notMem
      simp only [List.any_eq_true, decide_eq_true_eq, not_exists, not_and]
      exact fun d hd heq => hc (List.mem_append_left _ (List.mem_map.2 ⟨d, hd, heq⟩))
    rw [List.foldl_cons, ih (by simpa [hnew] using h), hnew, List.append_assoc]
    rfl

theorem ofClasses_classes (p : Program) : ofClasses p.classes = p :=
  eq_of_classes (classes_foldl_insert p.distinct)

/-- The constants in the bodies of all methods. -/
def constants (p : Program) : List Constant :=
  p.classes.flatMap ClassDecl.constants

theorem isWritable_toJson (p : Program) : p.toJson.IsWritable := by
  simp [toJson]

theorem rereads : decoder.Rereads toJson constants 14 := by
  refine Rereads.record fun {room fs p} hroom hp => ?_
  split at hp
  · next cs =>
    obtain ⟨cs, hcs, rfl⟩ := Option.map_eq_some_iff.1 hp
    refine ⟨_, Json.fields?_eq rfl (by decide), ?_⟩
    have h := (ClassDecl.rereads.listField_of_subset hroom hcs (classes_ofClasses_subset cs)).map
      ofClasses
    rwa [ofClasses_classes] at h
  · cases hp

theorem ofText?_pretty (p : Program) :
    decoder.ofText? p.toJson.pretty = decoder Json.maxDepth p.toJson := by
  rw [ofText?, Json.parse?_pretty p.isWritable_toJson, Option.bind_some]

/-- What becomes of a program that was read, when it is written and read again. -/
theorem readsBack_pretty {s : String} {p : Program} (h : decoder.ofText? s = some p) :
    ReadsBack p.constants p (decoder.ofText? p.toJson.pretty) := by
  obtain ⟨j, -, hj⟩ := Option.bind_eq_some_iff.1 h
  rw [ofText?_pretty]
  exact rereads (by decide) hj

end Program

theorem Body.readsBack_compact {s : String} {b : Body} (h : Body.decoder.ofText? s = some b) :
    ReadsBack b.constants b (Body.decoder.ofText? b.toJson.compact) := by
  obtain ⟨j, -, hj⟩ := Option.bind_eq_some_iff.1 h
  rw [ofText?, Json.parse?_compact b.isWritable_toJson]
  exact Body.rereads (by decide) hj

/-- Without floating-point constants, a program that was read is written over lines in a form that
is read as the same program, and a body on one line in a form that is read as the same body. -/
theorem written_readBack :
    (∀ (s : String) (p : Program), Program.decoder.ofText? s = some p →
      (∀ c ∈ p.constants, c.isFloating = false) →
        Program.decoder.ofText? p.toJson.pretty = some p) ∧
    (∀ (s : String) (b : Body), Body.decoder.ofText? s = some b →
      (∀ c ∈ b.constants, c.isFloating = false) →
        Body.decoder.ofText? b.toJson.compact = some b) := by
  constructor
  · intro s p h hconstants
    exact (Program.readsBack_pretty h).eq_some hconstants
  · intro s b h hconstants
    exact (Body.readsBack_compact h).eq_some hconstants

namespace Sample

/-- A body in another form than the written one: fields left out, unknown or in another order,
records as arrays, words as tags; with an array type over one of no dimensions. -/
def looseBody : Json :=
  .object [("comment", .null),
    ("instructions", .array [
      .object [("nop", .null)],
      .object [("identity", .array [.int 0, .object [("this", .null)]])],
      .object [("assign", .object [
        ("value", .object [("use", .object [("const", .object [("class", .object [("array", .array [
          .object [("array", .array [.object [("primitive", .object [("int", .null)])], .int 0])],
          .int 2])])])])]),
        ("dest", .object [("local", .int 0)])])],
      .object [("return", .null)]])]

/-- The body that `looseBody` stands for. -/
def readBody : Body :=
  ⟨[], [.nop, .bind 0 .this,
    .assign (.var 0) (.use (.const (.classOf (.array (.array (.primitive .int) 0) 2)))),
    .ret none], []⟩

/-- The class `A` is declared twice, the second time as an array. -/
def looseProgram : Json :=
  .object [("classes", .array [
    .object [("name", .string "A")],
    .object [("methods", .array []), ("name", .string "B"), ("superclass", .null)],
    .array [.string "A", .string "B", .array [.string "I"], .bool true, .bool true, .array [],
      .array [.object [("name", .string "m\n"), ("return_type", .object [("void", .null)]),
        ("body", looseBody)]]]])]

/-- The program that `looseProgram` stands for. -/
def readProgram : Program :=
  ⟨[⟨"A", some "B", ["I"], true, true, [],
      [⟨"m\n", [], .void, false, false, false, some readBody⟩]⟩,
    ⟨"B", none, [], false, false, [], []⟩], by decide⟩

end Sample

theorem written_readBack_sample :
    Program.decoder.ofText? Sample.looseProgram.compact = some Sample.readProgram ∧
      Program.decoder.ofText? Sample.readProgram.toJson.pretty = some Sample.readProgram ∧
      Body.decoder.ofText? Sample.looseBody.compact = some Sample.readBody ∧
      Body.decoder.ofText? Sample.readBody.toJson.compact = some Sample.readBody := by
  have hbody : Body.decoder.ofText? Sample.looseBody.compact = some Sample.readBody := by
    rw [ofText?, Json.parse?_compact (by simp [Sample.looseBody])]
    decide +kernel
  have hprogram :
      Program.decoder.ofText? Sample.looseProgram.compact = some Sample.readProgram := by
    rw [ofText?, Json.parse?_compact (by simp [Sample.looseProgram, Sample.looseBody])]
    decide +kernel
  exact ⟨hprogram, written_readBack.1 _ _ hprogram (by decide), hbody,
    written_readBack.2 _ _ hbody (by decide)⟩

/-- The written form of a program that was read is read again exactly if no constant of the 32-bit
format is infinite or undefined. -/
theorem written_readable_iff {s : String} {p : Program} (h : Program.decoder.ofText? s = some p) :
    (Program.decoder.ofText? p.toJson.pretty).isSome ↔ ∀ v, .float v ∈ p.constants → v.IsFinite :=
  (Program.readsBack_pretty h).isSome_iff

namespace Sample

/-- A program with one body, in the form that says least. -/
def programJson (code : List Json) : Json :=
  .object [("classes", .array [.object [("name", .string "A"), ("methods", .array [
    .object [("name", .string "m"), ("return_type", .string "void"),
      ("body", .object [("instructions", .array code)])]])]])]

/-- The program that `programJson` stands for. -/
def programOf (code : List Instruction) : Program :=
  ⟨[⟨"A", none, [], false, false, [],
    [⟨"m", [], .void, false, false, false, some ⟨[], code, []⟩⟩]⟩], by simp⟩

/-- The instruction that gives back a constant. -/
def returnJson (tag : String) (n : Numeral) : Json :=
  .object [("return", .object [("const", .object [(tag, .number n)])])]

/-- A tenth, and the least finite number of the 64-bit format. -/
def finiteJson : Json :=
  programJson [returnJson "float" ⟨false, ['0'], ['1'], none⟩,
    returnJson "double" ⟨true, ['1'], "7976931348623157".toList, some 308⟩]

/-- The program that `finiteJson` stands for. -/
def finiteProgram : Program :=
  programOf [.ret (some (.const (.float ⟨0x3dcccccd⟩))),
    .ret (some (.const (.double ⟨0xffefffffffffffff⟩)))]

/-- A number that is finite in the 64-bit format, but not in the 32-bit format. -/
def oversizedJson : Json :=
  programJson [returnJson "float" ⟨false, ['1'], [], some 39⟩]

/-- What is read from `oversizedJson`. -/
def infiniteProgram : Program :=
  programOf [.ret (some (.const (.float ⟨0x7f800000⟩)))]

theorem isWritable_finiteJson : finiteJson.IsWritable := by
  have htenth : (Json.number ⟨false, ['0'], ['1'], none⟩).IsWritable :=
    .number ⟨⟨by simp, by simp, by simp⟩, by simp, by simp⟩
  have hleast : (Json.number ⟨true, ['1'], "7976931348623157".toList, some 308⟩).IsWritable :=
    .number ⟨⟨by simp, by simp, by simp⟩, by simp, by simp⟩
  simpa [finiteJson, programJson, returnJson] using ⟨htenth, hleast⟩

theorem isWritable_oversizedJson : oversizedJson.IsWritable := by
  have hnumber : (Json.number ⟨false, ['1'], [], some 39⟩).IsWritable :=
    .number ⟨⟨by simp, by simp, by simp⟩, by simp, by simp⟩
  simpa [oversizedJson, programJson, returnJson] using hnumber

end Sample

theorem written_readable_iff_finite :
    Program.decoder.ofText? Sample.finiteJson.compact = some Sample.finiteProgram ∧
      (Program.decoder.ofText? Sample.finiteProgram.toJson.pretty).isSome := by
  have hread : Program.decoder.ofText? Sample.finiteJson.compact = some Sample.finiteProgram := by
    rw [ofText?, Json.parse?_compact Sample.isWritable_finiteJson]
    decide +kernel
  have hconstants : Sample.finiteProgram.constants =
      [.float ⟨0x3dcccccd⟩, .double ⟨0xffefffffffffffff⟩] := by decide
  refine ⟨hread, (written_readable_iff hread).2 fun v hv => ?_⟩
  rw [hconstants] at hv
  simp only [List.mem_cons, Constant.float.injEq, reduceCtorEq, List.not_mem_nil, or_false] at hv
  rw [hv]
  decide

/-- A constant that becomes infinite when it is read makes the written form unreadable. -/
theorem written_infinite_unreadable :
    Program.decoder.ofText? Sample.oversizedJson.compact = some Sample.infiniteProgram ∧
      Program.decoder.ofText? Sample.infiniteProgram.toJson.pretty = none := by
  constructor
  · rw [ofText?, Json.parse?_compact Sample.isWritable_oversizedJson]
    decide +kernel
  · rw [Program.ofText?_pretty]
    decide +kernel

end Standin
