import Standin.Proofs.Legible
import Standin.Proofs.Signatures

/-!
# Names in a listing

Where the names of classes, fields and methods are made of letters, digits and the marks `_`, `$`
and `.`, no other mark of a listing stands inside a name, so a name ends where another character
begins. Types, fields and methods with such names are legible from their texts.
-/

namespace Standin

open Text

/-! ## Identifiers -/

/-- A character of a name. Outside ASCII all characters but the blanks are taken for letters. -/
def isIdentifierChar (c : Char) : Bool :=
  if c.toNat < 0x80 then c.isAlphanum || c = '_' || c = '$' || c = '.' else !isBlank c

/-- A name of letters, digits, `_`, `$` and `.`, whichever of them comes first. -/
structure IsIdentifier (name : String) : Prop where
  nonempty : name ≠ ""
  chars : name.toList.all isIdentifierChar

/-- A character of a type: of its name or of the brackets. -/
def isTypeChar (c : Char) : Bool :=
  isIdentifierChar c || c = '[' || c = ']'

theorem isTypeChar_of_isAlphanum {c : Char} (h : c.isAlphanum) : isTypeChar c := by
  have hmax : 'Z'.toNat < 0x80 ∧ 'z'.toNat < 0x80 ∧ '9'.toNat < 0x80 := by decide
  have hascii : c.toNat < 0x80 := by
    rcases Bool.or_eq_true_iff.1 h with halpha | hdigit
    · rcases Bool.or_eq_true_iff.1 halpha with hupper | hlower
      · exact Nat.lt_of_le_of_lt (of_decide_eq_true hupper).2 hmax.1
      · exact Nat.lt_of_le_of_lt (of_decide_eq_true (Bool.and_eq_true_iff.1 hlower).2) hmax.2.1
    · exact Nat.lt_of_le_of_lt (Char.isDigit_iff_toNat.1 hdigit).2 hmax.2.2
  rw [isTypeChar, isIdentifierChar, if_pos hascii, h]
  simp

theorem isNameChar_of_isIdentifierChar {c : Char} (h : isIdentifierChar c) :
    ValueType.isNameChar c := by
  by_cases hc : c.toNat < 0x80
  · have hascii : ∀ n : Fin 0x80, isIdentifierChar (Char.ofNat n) →
        ValueType.isNameChar (Char.ofNat n) := by decide
    have hn := hascii ⟨c.toNat, hc⟩
    rw [Char.ofNat_toNat] at hn
    exact hn h
  · have hascii : ∀ d ∈ ['[', ']', '<', '>'], d.toNat < 0x80 := by simp
    rw [isIdentifierChar, if_neg hc, Bool.not_eq_true'] at h
    exact ValueType.isNameChar_iff.2 ⟨h, fun hmem => hc (hascii c hmem)⟩

theorem IsIdentifier.isName {name : String} (h : IsIdentifier name) : ValueType.IsName name :=
  ValueType.isName_iff.2 ⟨h.nonempty, List.all_eq_true.2 fun c hc =>
    isNameChar_of_isIdentifierChar (List.all_eq_true.1 h.chars c hc)⟩

theorem legible_identifier : Legible IsIdentifier (Stops isIdentifierChar) String.toList := by
  intro a b ha hb r s hr hs h
  obtain ⟨hab, hrest⟩ := span_unique (List.all_eq_true.1 ha.chars) (List.all_eq_true.1 hb.chars)
    hr hs h
  exact ⟨String.toList_inj.1 hab, hrest⟩

/-! ## Types -/

namespace ValueType

/-- The class has a name of its own, and an array has its dimensions in one place. -/
def IsPlain : ValueType → Prop
  | primitive _ => True
  | reference c => IsIdentifier c ∧ c ≠ "void" ∧ ∀ p : Primitive, p.keyword ≠ c
  | array base d => d ≠ 0 ∧ (∀ e n, base ≠ array e n) ∧ base.IsPlain

variable {t : ValueType}

theorem IsPlain.isCanonical (h : t.IsPlain) : t.IsCanonical := by
  have helement : ∀ e : ValueType, (∀ e' n, e ≠ array e' n) → e.IsPlain → e.IsElement := by
    intro e hbase he
    cases e with
    | primitive p => trivial
    | reference c => exact ⟨he.1.isName, he.2⟩
    | array e' n => exact absurd rfl (hbase e' n)
  cases t with
  | primitive p => trivial
  | reference c => exact helement (reference c) (by simp) h
  | array base d => exact ⟨h.1, helement base h.2.1 h.2.2⟩

theorem IsPlain.isTypeChar (h : t.IsPlain) : ∀ c ∈ t.text.toList, isTypeChar c := by
  induction t with
  | primitive p =>
    have hall : p.keyword.toList.all Standin.isTypeChar := by cases p <;> decide
    exact List.all_eq_true.1 hall
  | reference c =>
    intro d hd
    simp [Standin.isTypeChar, List.all_eq_true.1 h.1.chars d hd]
  | array base n ih =>
    intro c hc
    rw [text, String.toList_append, List.mem_append] at hc
    rcases hc with hc | hc
    · exact ih h.2.2 c hc
    · rcases mem_brackets hc with rfl | rfl <;> decide

theorem IsPlain.not_mem_text (h : t.IsPlain) {d : Char} (hd : Standin.isTypeChar d = false) :
    d ∉ t.text.toList := fun hmem =>
  absurd (h.isTypeChar d hmem) (by simp [hd])

theorem IsPlain.head?_ne (h : t.IsPlain) {d : Char} (hd : Standin.isTypeChar d = false)
    (r : List Char) : (t.text.toList ++ r).head? ≠ some d := by
  have hne : t.text.toList ≠ [] := ResultType.text_ne (r := .value t) fun t' ht' => by
    cases ht'
    exact h.isCanonical
  obtain ⟨c, cs, hc⟩ := List.exists_cons_of_ne_nil hne
  intro hhead
  obtain rfl : c = d := by simpa [hc] using hhead
  exact h.not_mem_text hd (by simp [hc])

end ValueType

theorem legible_type :
    Legible ValueType.IsPlain (Stops isTypeChar) fun t => t.text.toList := by
  intro t t' ht ht' r s hr hs h
  obtain ⟨htext, hrest⟩ := span_unique ht.isTypeChar ht'.isTypeChar hr hs h
  exact ⟨ValueType.text_injective ht.isCanonical ht'.isCanonical (String.toList_inj.1 htext), hrest⟩

theorem legible_result :
    Legible (fun r : ResultType => ∀ t, r = .value t → t.IsPlain) (Stops isTypeChar)
      fun r => r.text.toList := by
  have hchars : ∀ r : ResultType, (∀ t, r = .value t → t.IsPlain) →
      ∀ c ∈ r.text.toList, isTypeChar c := by
    intro r hr
    cases r with
    | void => exact List.all_eq_true.1 (by decide)
    | value t => exact (hr t rfl).isTypeChar
  intro a b ha hb r s hr hs h
  obtain ⟨htext, hrest⟩ := span_unique (hchars a ha) (hchars b hb) hr hs h
  have hparse := ResultType.parse_text fun t ht => (ha t ht).isCanonical
  rw [String.toList_inj.1 htext, ResultType.parse_text fun t ht => (hb t ht).isCanonical] at hparse
  exact ⟨(Except.ok.inj hparse).symm, hrest⟩

/-! ## Fields and methods -/

/-- The names of a field and of its class are identifiers, and its type is plain. -/
structure FieldRef.IsPlain (f : FieldRef) : Prop where
  className : IsIdentifier f.className
  name : IsIdentifier f.name
  type : f.type.IsPlain

theorem FieldRef.toList_text (f : FieldRef) (r : List Char) :
    f.text.toList ++ r = '<' :: (f.className.toList ++ ':' :: ' ' :: (f.type.text.toList ++
      ' ' :: (f.name.toList ++ '>' :: r))) := by
  simp [FieldRef.text]

theorem legible_field : Legible FieldRef.IsPlain (fun _ => True) fun f => f.text.toList := by
  rintro ⟨c, n, t⟩ ⟨c', n', t'⟩ ⟨hc, hn, ht⟩ ⟨hc', hn', ht'⟩ r s _ _ h
  rw [FieldRef.toList_text, FieldRef.toList_text] at h
  obtain ⟨rfl, h₁⟩ := legible_identifier.upTo (by decide) hc hc' (List.cons.inj h).2
  obtain ⟨rfl, h₂⟩ := legible_type.upTo (by decide) ht ht' (List.cons.inj h₁).2
  obtain ⟨rfl, h₃⟩ := legible_identifier.upTo (by decide) hn hn' h₂
  exact ⟨rfl, h₃⟩

/-- The names of a method and of its class are identifiers, or the method has one of the two special
names, and its types are plain. -/
structure MethodRef.IsPlain (m : MethodRef) : Prop where
  className : IsIdentifier m.className
  name : IsIdentifier m.name ∨ m.name = constructorName ∨ m.name = staticInitializerName
  params : ∀ t ∈ m.params, t.IsPlain
  result : ∀ t, m.result = .value t → t.IsPlain

theorem MethodRef.IsPlain.not_mem_name {m : MethodRef} (h : m.IsPlain) : '(' ∉ m.name.toList := by
  rcases h.name with hname | hname | hname
  · intro hmem
    exact absurd (List.all_eq_true.1 hname.chars _ hmem) (by decide)
  · rw [hname]
    decide
  · rw [hname]
    decide

theorem MethodRef.toList_text (m : MethodRef) (r : List Char) :
    m.text.toList ++ r = '<' :: (m.className.toList ++ ':' :: ' ' :: (m.result.text.toList ++
      ' ' :: (m.name.toList ++ '(' :: ([','].intercalate (m.params.map fun t => t.text.toList) ++
        ')' :: '>' :: r)))) := by
  simp [MethodRef.text, MethodRef.subSignature, joined, String.toList_intercalate,
    Function.comp_def]

theorem MethodRef.head?_text (m : MethodRef) (r : List Char) :
    (m.text.toList ++ r).head? = some '<' := by
  rw [MethodRef.toList_text, List.head?_cons]

theorem legible_method : Legible MethodRef.IsPlain (fun _ => True) fun m => m.text.toList := by
  rintro ⟨c, n, ts, t⟩ ⟨c', n', ts', t'⟩ hm hm' r s _ _ h
  rw [MethodRef.toList_text, MethodRef.toList_text] at h
  obtain ⟨rfl, h₁⟩ := legible_identifier.upTo (by decide) hm.className hm'.className
    (List.cons.inj h).2
  obtain ⟨rfl, h₂⟩ := legible_result.upTo (by decide) hm.result hm'.result (List.cons.inj h₁).2
  obtain ⟨hname, h₃⟩ := cut_unique hm.not_mem_name hm'.not_mem_name h₂
  obtain rfl := String.toList_inj.1 hname
  obtain ⟨rfl, h₄⟩ := legible_type.intercalate (by decide) (stops_cons (by decide))
    (stops_cons (by decide)) (fun t ht r => ht.head?_ne (by decide) r) hm.params hm'.params h₃
  exact ⟨rfl, (List.cons.inj h₄).2⟩

end Standin
