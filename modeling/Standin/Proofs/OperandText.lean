import Standin.Body.Printer
import Standin.Proofs.Names
import Standin.Proofs.Renumbering

/-!
# Operands in a listing

What a piece of a listing can be is told by its opening: the word that it begins with, or its first
mark (`Opening.of`). A variable is a letter and digits, so it is no word, and a number is told from
a variable, a text and a word by its first character. So operands are legible where no letter and
no digit follows them (`legible_operand`).
-/

namespace Standin

open Text

/-! ## Openings -/

/-- What a piece of a listing begins with. -/
inductive Opening
  | var
  | number
  | string
  | classOf
  | null
  | new
  | newArray
  | cast
  | field
  | call
  | throw
  | branch
  | goto
  | ret
  | nop
  | handler
  | label
  | other

namespace Opening

/-- The words that a piece of a listing can begin with. -/
def words : List (List Char × Opening) :=
  [("class".toList, classOf), ("null".toList, null), ("new".toList, new),
    ("newarray".toList, newArray), ("newmultiarray".toList, newArray),
    ("staticinvoke".toList, call), ("specialinvoke".toList, call),
    ("interfaceinvoke".toList, call), ("virtualinvoke".toList, call),
    ("dynamicinvoke".toList, call), ("throw".toList, throw), ("if".toList, branch),
    ("goto".toList, goto), ("return".toList, ret), ("nop".toList, nop), ("catch".toList, handler),
    ("label".toList, label)]

/-- The opening of a text that begins with no letter. -/
def ofMark (c : Char) : Opening :=
  if c = '"' then string else if c = '(' then cast else if c = '<' then field
  else if c.isDigit || c = '-' then number else other

/-- The opening of a text, by the letters that it begins with, or by its first mark. A letter on its
own is that of a variable. -/
def of (s : List Char) : Opening :=
  if s.takeWhile Char.isAlpha = [] then (s.head?.map ofMark).getD other
  else (words.lookup (s.takeWhile Char.isAlpha)).getD var

theorem of_word {w : List Char} {o : Opening} (hw : words.lookup w = some o)
    (hall : w.all Char.isAlpha) {r : List Char} (hr : Stops Char.isAlpha r) : of (w ++ r) = o := by
  have hne : w ≠ [] := by
    rintro rfl
    cases hw
  rw [of, takeWhile_append_stops (List.all_eq_true.1 hall) hr, if_neg hne, hw, Option.getD_some]

/-- A word ends at a character that is no letter. -/
theorem of_word_cons {w : List Char} {o : Opening} (hw : words.lookup w = some o)
    (hall : w.all Char.isAlpha) {d : Char} (hd : d.isAlpha = false) (r : List Char) :
    of (w ++ d :: r) = o :=
  of_word hw hall (stops_cons hd r)

theorem of_letter {c : Char} (hc : c.isAlpha) {r : List Char} (hr : Stops Char.isAlpha r) :
    of (c :: r) = var := by
  have hrun : (c :: r).takeWhile Char.isAlpha = [c] :=
    takeWhile_append_stops (a := [c]) (by simpa using hc) hr
  have hlookup : words.lookup [c] = none := by simp [words]
  rw [of, hrun, if_neg (List.cons_ne_nil _ _), hlookup, Option.getD_none]

theorem of_mark {c : Char} (hc : c.isAlpha = false) (r : List Char) : of (c :: r) = ofMark c := by
  rw [of, List.takeWhile_cons_of_neg (by simp [hc]), if_pos rfl]
  rfl

/-- A text with an opening begins with no other mark. -/
theorem head?_ne {s : List Char} (h : of s ≠ other) {d : Char} (hd : d.isAlpha = false)
    (hmark : ofMark d = other) (r : List Char) : (s ++ r).head? ≠ some d := by
  rcases s with _ | ⟨c, s⟩
  · exact absurd rfl h
  · intro hhead
    obtain rfl : c = d := by simpa using hhead
    exact h ((of_mark hd s).trans hmark)

end Opening

theorem isAlpha_of_isDigit {c : Char} (hc : c.isDigit) : c.isAlpha = false := by
  have hlow : ∀ n : Fin 0x3a, (Char.ofNat n).isAlpha = false := by decide
  have hle : c.toNat ≤ 0x39 := (Char.isDigit_iff_toNat.1 hc).2
  have hc := hlow ⟨c.toNat, by omega⟩
  rwa [Char.ofNat_toNat] at hc

theorem exists_digit (n : Nat) : ∃ c cs, Nat.toDigits 10 n = c :: cs ∧ c.isDigit := by
  obtain ⟨c, cs, hn⟩ := List.exists_cons_of_ne_nil (Nat.toDigits_ne_nil (b := 10) (n := n))
  exact ⟨c, cs, hn, Nat.isDigit_of_mem_toDigits (by decide) (by decide) (hn ▸ List.mem_cons_self)⟩

namespace Text.Stops

variable {r : List Char}

theorem alphanum (h : Stops isTypeChar r) : Stops Char.isAlphanum r :=
  h.mono fun _ => isTypeChar_of_isAlphanum

theorem alpha (h : Stops Char.isAlphanum r) : Stops Char.isAlpha r :=
  h.mono fun c hc => by simp [Char.isAlphanum, hc]

theorem digit (h : Stops Char.isAlphanum r) : Stops Char.isDigit r :=
  h.mono fun c hc => by simp [Char.isAlphanum, hc]

theorem identifier (h : Stops isTypeChar r) : Stops isIdentifierChar r :=
  h.mono fun c hc => by simp [isTypeChar, hc]

end Text.Stops

/-! ## Variables -/

/-- A name as `Variable.named` gives it. -/
def IsVarName (name : String) : Prop :=
  ∃ (t : ValueType) (n : Nat), name.toList = t.letter :: Nat.toDigits 10 n

theorem isAlpha_letter (t : ValueType) : t.letter.isAlpha := by
  unfold ValueType.letter
  split <;> rfl

theorem IsVarName.opening {name : String} (h : IsVarName name) (r : List Char) :
    Opening.of (name.toList ++ r) = .var := by
  obtain ⟨t, n, hname⟩ := h
  obtain ⟨c, cs, hn, hc⟩ := exists_digit n
  rw [hname, hn]
  exact Opening.of_letter (isAlpha_letter t) (stops_cons (isAlpha_of_isDigit hc) _)

theorem legible_varName : Legible IsVarName (Stops Char.isDigit) String.toList := by
  rintro a b ⟨t, n, ha⟩ ⟨t', n', hb⟩ r s hr hs h
  rw [ha, hb] at h
  obtain ⟨hletter, h⟩ := List.cons.inj h
  obtain ⟨rfl, hrest⟩ := legible_toDigits trivial trivial hr hs h
  exact ⟨String.toList_inj.1 (by rw [ha, hb, hletter]), hrest⟩

/-- Variables that are told apart by their names. -/
structure AreNumbered (vs : List Variable) : Prop where
  names : ∀ v ∈ vs, IsVarName v.name
  nodup : (vs.map Variable.name).Nodup

theorem areNumbered_renumber (b : Body) : AreNumbered b.renumber.declared where
  names v hv := by
    obtain ⟨n, hname, -⟩ := Variable.exists_of_mem_named hv
    exact ⟨v.type, n, by rw [hname, String.toList_ofList]⟩
  nodup := Variable.nodup_named _ _

section

variable {vs : List Variable} (hvs : AreNumbered vs)

include hvs

theorem AreNumbered.isVarName {x : VarId} (hx : x < vs.length) :
    IsVarName (Variable.nameIn vs x) := by
  rw [Variable.nameIn, List.getElem?_eq_getElem hx]
  exact hvs.names _ (List.getElem_mem hx)

theorem legible_var :
    Legible (· < vs.length) (Stops Char.isDigit) fun x => (Variable.nameIn vs x).toList := by
  intro x y hx hy r s hr hs h
  obtain ⟨hname, hrest⟩ := legible_varName (hvs.isVarName hx) (hvs.isVarName hy) hr hs h
  have hx' : x < (vs.map Variable.name).length := by simpa using hx
  have hy' : y < (vs.map Variable.name).length := by simpa using hy
  have hnames : (vs.map Variable.name)[x] = (vs.map Variable.name)[y] := by
    simpa [Variable.nameIn, hx, hy] using hname
  exact ⟨hvs.nodup.getElem_inj_iff.1 hnames, hrest⟩

end

/-! ## Operands -/

/-- Not a floating-point number, and no class object of a type that is not plain. -/
def Constant.IsPlain : Constant → Prop
  | float _ | double _ => False
  | classOf t => t.IsPlain
  | _ => True

/-- A plain constant, or one of the first `n` variables. -/
def Operand.IsPlain (n : Nat) : Operand → Prop
  | var x => x < n
  | const c => c.IsPlain

theorem toList_repr_cases (v : Int) :
    (0 ≤ v ∧ v.repr.toList = Nat.toDigits 10 v.toNat) ∨
      (v < 0 ∧ v.repr.toList = '-' :: Nat.toDigits 10 (-v).toNat) := by
  rw [Int.repr_eq_if]
  split_ifs with hv
  · exact .inl ⟨hv, Nat.toList_repr⟩
  · exact .inr ⟨Int.not_le.1 hv, by simp⟩

theorem legible_int :
    Legible (fun _ : Int => True) (Stops Char.isDigit) fun v => v.repr.toList := by
  have hsign : ∀ (n : Nat) (r s : List Char), Nat.toDigits 10 n ++ r ≠ '-' :: s := by
    intro n r s h
    obtain ⟨c, cs, hn, hc⟩ := exists_digit n
    obtain rfl : c = '-' := by
      rw [hn] at h
      exact (List.cons.inj h).1
    exact absurd hc (by decide)
  intro v w _ _ r s hr hs h
  rcases toList_repr_cases v with ⟨hv, hvt⟩ | ⟨hv, hvt⟩ <;>
    rcases toList_repr_cases w with ⟨hw, hwt⟩ | ⟨hw, hwt⟩ <;>
    simp only [hvt, hwt, List.cons_append] at h
  · obtain ⟨heq, hrest⟩ := legible_toDigits trivial trivial hr hs h
    exact ⟨by omega, hrest⟩
  · exact absurd h (hsign _ _ _)
  · exact absurd h.symm (hsign _ _ _)
  · obtain ⟨heq, hrest⟩ := legible_toDigits trivial trivial hr hs (List.cons.inj h).2
    exact ⟨by omega, hrest⟩

theorem opening_int (v : Int) (r : List Char) : Opening.of (v.repr.toList ++ r) = .number := by
  have hdigit : ∀ (n : Nat) (r : List Char), Opening.of (Nat.toDigits 10 n ++ r) = .number := by
    intro n r
    obtain ⟨c, cs, hn, hc⟩ := exists_digit n
    have hne : ∀ d : Char, d.isDigit = false → c ≠ d := by
      rintro d hd rfl
      exact absurd hc (by simp [hd])
    rw [hn, List.cons_append, Opening.of_mark (isAlpha_of_isDigit hc), Opening.ofMark,
      if_neg (hne _ (by decide)), if_neg (hne _ (by decide)), if_neg (hne _ (by decide)),
      if_pos (by simp [hc])]
  rcases toList_repr_cases v with ⟨-, hv⟩ | ⟨-, hv⟩ <;> rw [hv]
  · exact hdigit _ _
  · exact Opening.of_mark (by decide) _

/-- What the text of a constant opens with. -/
def Constant.opening : Constant → Opening
  | string _ => .string
  | classOf _ => .classOf
  | null => .null
  | _ => .number

theorem toList_long (v : Int64) (r : List Char) :
    (Constant.long v).text.toList ++ r = v.toInt.repr.toList ++ 'L' :: r := by
  simp [Constant.text]

theorem toList_classOf (t : ValueType) (r : List Char) :
    (Constant.classOf t).text.toList ++ r =
      "class".toList ++ ' ' :: '"' :: (t.text.toList ++ '"' :: r) := by
  simp [Constant.text]

theorem Constant.opening_text {c : Constant} (hc : c.IsPlain) {r : List Char}
    (hr : Stops Char.isAlphanum r) : Opening.of (c.text.toList ++ r) = c.opening := by
  cases c with
  | int v => exact opening_int _ _
  | long v =>
    rw [text, String.toList_append, List.append_assoc]
    exact opening_int _ _
  | float v => exact hc.elim
  | double v => exact hc.elim
  | string v =>
    rw [text, quoted, String.toList_ofList]
    rfl
  | classOf t =>
    rw [toList_classOf]
    exact Opening.of_word_cons rfl (by decide) (by decide) _
  | null => exact Opening.of_word (w := "null".toList) rfl (by decide) hr.alpha

theorem legible_constant :
    Legible Constant.IsPlain (Stops Char.isAlphanum) fun c => c.text.toList := by
  intro c d hc hd r s hr hs h
  have hopening : c.opening = d.opening := by
    rw [← Constant.opening_text hc hr, ← Constant.opening_text hd hs, h]
  have hlong : ∀ (v w : Int) {r s : List Char}, Stops Char.isAlphanum r →
      v.repr.toList ++ r ≠ w.repr.toList ++ 'L' :: s := by
    intro v w r s hr h
    obtain ⟨-, rfl⟩ := legible_int trivial trivial hr.digit (stops_cons (by decide) _) h
    exact absurd (hr 'L' rfl) (by decide)
  cases c <;> cases d <;> try first | exact hc.elim | exact hd.elim | (cases hopening; done)
  case int.int v w =>
    obtain ⟨hvw, hrest⟩ := legible_int trivial trivial hr.digit hs.digit h
    exact ⟨congrArg Constant.int (Int32.toInt_inj.1 hvw), hrest⟩
  case int.long v w =>
    rw [toList_long] at h
    exact absurd h (hlong _ _ hr)
  case long.int v w =>
    rw [toList_long] at h
    exact absurd h.symm (hlong _ _ hs)
  case long.long v w =>
    rw [toList_long, toList_long] at h
    obtain ⟨hvw, hrest⟩ := legible_int.upTo (by decide) trivial trivial h
    exact ⟨congrArg Constant.long (Int64.toInt_inj.1 hvw), hrest⟩
  case string.string v w =>
    simp only [Constant.text, quoted, String.toList_ofList] at h
    obtain ⟨hvw, hrest⟩ := quotedChars_unique h
    exact ⟨congrArg Constant.string (String.toList_inj.1 hvw), hrest⟩
  case classOf.classOf t t' =>
    rw [toList_classOf, toList_classOf] at h
    obtain ⟨rfl, hrest⟩ := legible_type.upTo (by decide) hc hd
      (List.cons.inj (List.cons.inj (List.append_cancel_left h)).2).2
    exact ⟨rfl, hrest⟩
  case null.null => exact ⟨rfl, List.append_cancel_left h⟩

/-- What the text of an operand opens with. -/
def Operand.opening : Operand → Opening
  | var _ => .var
  | const c => c.opening

theorem Operand.opening_ne (o : Operand) : o.opening ≠ .other := by
  rcases o with x | c
  · exact Opening.noConfusion
  · cases c <;> exact Opening.noConfusion

section

variable {vs : List Variable} (hvs : AreNumbered vs)

include hvs

theorem Operand.opening_text {o : Operand} (ho : o.IsPlain vs.length) {r : List Char}
    (hr : Stops Char.isAlphanum r) : Opening.of ((o.text vs).toList ++ r) = o.opening := by
  cases o with
  | var x => exact (hvs.isVarName ho).opening r
  | const c => exact c.opening_text ho hr

theorem legible_operand :
    Legible (Operand.IsPlain vs.length) (Stops Char.isAlphanum) fun o => (o.text vs).toList := by
  intro o o' ho ho' r s hr hs h
  have hopening : o.opening = o'.opening := by
    rw [← Operand.opening_text hvs ho hr, ← Operand.opening_text hvs ho' hs, h]
  cases o with
  | var x =>
    cases o' with
    | var y =>
      obtain ⟨rfl, hrest⟩ := legible_var hvs ho ho' hr.digit hs.digit h
      exact ⟨rfl, hrest⟩
    | const c => cases c <;> cases hopening
  | const c =>
    cases o' with
    | var y => cases c <;> cases hopening
    | const d =>
      obtain ⟨rfl, hrest⟩ := legible_constant ho ho' hr hs h
      exact ⟨rfl, hrest⟩

theorem Operand.head?_ne {o : Operand} (ho : o.IsPlain vs.length) {d : Char}
    (hd : d.isAlpha = false) (hmark : Opening.ofMark d = .other) (r : List Char) :
    ((o.text vs).toList ++ r).head? ≠ some d := by
  refine Opening.head?_ne ?_ hd hmark r
  have hopening := Operand.opening_text hvs ho (r := []) (by simp [Stops])
  rw [List.append_nil] at hopening
  rw [hopening]
  exact o.opening_ne

end

end Standin
