import Standin.Proofs.Cutting
import Standin.ValueType.Parser

/-!
# The grammar of types

A text is read as a type if and only if it is a name and at most 255 pairs of brackets with blanks
around and between them (`ValueType.Spells`), and which of the faults another text has is told by
the same grammar. The reader takes brackets and blanks off the end, so it finds the one name that
can stand before them (`ValueType.stripPairs_of_spells`).

What is read is canonical, and the types that are read back from their own text are the canonical
ones (`ValueType.parse_text_iff`).
-/

namespace Standin

open Text

theorem Primitive.ofKeyword?_eq_some {name : String} {p : Primitive} :
    ofKeyword? name = some p ↔ p.keyword = name := by
  constructor
  · intro h
    simpa using List.find?_some h
  · rintro rfl
    cases p <;> rfl

namespace ValueType

/-! ## Names and brackets -/

/-- The name of a type: not empty, without blanks, brackets and angle brackets. -/
structure IsName (name : String) : Prop where
  nonempty : name ≠ ""
  chars : ∀ c ∈ name.toList, isBlank c = false ∧ c ∉ ['[', ']', '<', '>']

/-- So many pairs of brackets, each after blanks. -/
inductive Brackets : Nat → List Char → Prop
  | none : Brackets 0 []
  | pair {n : Nat} {pairs gap : List Char} :
    Brackets n pairs → IsBlanks gap → Brackets (n + 1) (pairs ++ gap ++ ['[', ']'])

/-- The text is a name and `n` pairs of brackets, with blanks around and between them. -/
def Spells (s name : String) (n : Nat) : Prop :=
  ∃ lead pairs trail, IsBlanks lead ∧ Brackets n pairs ∧ IsBlanks trail ∧
    s.toList = lead ++ name.toList ++ pairs ++ trail

/-- The primitive of that name, or else the class. -/
def IsNamed (name : String) : ValueType → Prop
  | primitive p => p.keyword = name
  | reference c => c = name ∧ ∀ p : Primitive, p.keyword ≠ name
  | array _ _ => False

/-- The type of that name with `n` dimensions. -/
def IsSpelled (name : String) (n : Nat) : ValueType → Prop
  | array base d => d.toNat = n ∧ 0 < n ∧ base.IsNamed name
  | t => n = 0 ∧ t.IsNamed name

/-- A primitive, or a class that has the name of no other type. -/
def IsElement : ValueType → Prop
  | primitive _ => True
  | reference c => IsName c ∧ c ≠ "void" ∧ ∀ p : Primitive, p.keyword ≠ c
  | array _ _ => False

/-- An array type has its dimensions in one place, and at least one. -/
def IsCanonical : ValueType → Prop
  | array base d => d ≠ 0 ∧ base.IsElement
  | t => t.IsElement

theorem isNameChar_iff {c : Char} :
    isNameChar c ↔ isBlank c = false ∧ c ∉ ['[', ']', '<', '>'] := by
  simp [isNameChar, and_assoc]

theorem isName_iff {name : String} :
    IsName name ↔ name ≠ "" ∧ name.toList.all isNameChar := by
  simp only [List.all_eq_true, isNameChar_iff]
  exact ⟨fun h => ⟨h.nonempty, h.chars⟩, fun h => ⟨h.1, h.2⟩⟩

theorem isName_void : IsName "void" :=
  isName_iff.2 (by decide)

theorem isName_keyword (p : Primitive) : IsName p.keyword ∧ p.keyword ≠ "void" := by
  cases p <;> exact ⟨isName_iff.2 (by decide), by decide⟩

theorem IsName.isTrimmed {name : String} (h : IsName name) : IsTrimmed name.toList :=
  isTrimmed_of_forall fun c hc => (h.chars c hc).1

theorem IsName.toList_ne_nil {name : String} (h : IsName name) : name.toList ≠ [] := by
  simpa using h.nonempty

theorem Brackets.isTrimmed_append {n : Nat} {pairs : List Char} (hp : Brackets n pairs)
    {name : String} (h : IsName name) : IsTrimmed (name.toList ++ pairs) := by
  cases hp with
  | none => simpa using h.isTrimmed
  | pair hp hgap =>
    refine ⟨fun c hc => h.isTrimmed.first c ?_, fun c hc => ?_⟩
    · obtain ⟨d, ds, hname⟩ := List.exists_cons_of_ne_nil h.toList_ne_nil
      rw [hname] at hc ⊢
      exact hc
    · rw [← List.append_assoc, List.getLast?_append] at hc
      obtain rfl : ']' = c := Option.some.inj hc
      decide

/-! ## Taking brackets off -/

theorem stripPairs_blank {c : Char} (h : isBlank c) (s : List Char) :
    stripPairs (c :: s) = stripPairs s := by
  rw [stripPairs.eq_def]
  split
  · next heq =>
    obtain ⟨rfl, -⟩ := List.cons.inj heq
    exact absurd h (by decide)
  · next heq =>
    obtain ⟨rfl, rfl⟩ := List.cons.inj heq
    rw [if_pos h]
  · next heq => cases heq

theorem stripPairs_blanks {gap : List Char} (h : IsBlanks gap) (s : List Char) :
    stripPairs (gap ++ s) = stripPairs s := by
  induction gap with
  | nil => rfl
  | cons c gap ih =>
    rw [List.cons_append, stripPairs_blank (h c List.mem_cons_self),
      ih fun d hd => h d (List.mem_cons_of_mem c hd)]

theorem stripPairs_brackets {n : Nat} {pairs : List Char} (h : Brackets n pairs) (s : List Char) :
    stripPairs (pairs.reverse ++ s) = ((stripPairs s).1 + n, (stripPairs s).2) := by
  induction h generalizing s with
  | none => rfl
  | @pair n pairs gap _ hgap ih =>
    have hgap' : IsBlanks gap.reverse := fun c hc => hgap c (List.mem_reverse.1 hc)
    have hpair : ∀ s, stripPairs (']' :: '[' :: s) = ((stripPairs s).1 + 1, (stripPairs s).2) :=
      fun _ => rfl
    simp only [List.reverse_append, List.reverse_cons, List.reverse_nil, List.nil_append,
      List.cons_append, List.append_assoc, hpair]
    rw [stripPairs_blanks hgap', ih, Nat.add_assoc]

/-- What the characters of a name start with is no pair of brackets. -/
theorem stripPairs_name {s : List Char} (hs : ∀ c ∈ s, isNameChar c) : stripPairs s = (0, s) := by
  rcases s with _ | ⟨c, s⟩
  · rfl
  · obtain ⟨hblank, hc⟩ := isNameChar_iff.1 (hs c List.mem_cons_self)
    rw [stripPairs.eq_def]
    split
    · next heq =>
      obtain ⟨rfl, -⟩ := List.cons.inj heq
      exact absurd hc (by decide)
    · next heq =>
      obtain ⟨rfl, rfl⟩ := List.cons.inj heq
      rw [if_neg (by simp [hblank])]
    · next heq => cases heq

theorem exists_stripPairs (s : List Char) :
    ∃ pairs trail, Brackets (stripPairs s).1 pairs ∧ IsBlanks trail ∧
      s.reverse = (stripPairs s).2.reverse ++ pairs ++ trail := by
  fun_induction stripPairs s with
  | case1 rest n base heq ih =>
    obtain ⟨pairs, trail, hp, ht, hr⟩ := ih
    rw [heq] at hp hr
    refine ⟨_, [], hp.pair ht, isBlanks_nil, ?_⟩
    simp [hr]
  | case2 c rest _ hblank ih =>
    obtain ⟨pairs, trail, hp, ht, hr⟩ := ih
    refine ⟨pairs, trail ++ [c], hp, List.forall_mem_append.2 ⟨ht, by simpa using hblank⟩, ?_⟩
    simp [hr]
  | case3 c rest _ _ => exact ⟨[], [], .none, isBlanks_nil, by simp⟩
  | case4 => exact ⟨[], [], .none, isBlanks_nil, by simp⟩

theorem spells_stripPairs (s : String) :
    Spells s (String.ofList (stripPairs (trim s.toList).reverse).2.reverse)
      (stripPairs (trim s.toList).reverse).1 := by
  obtain ⟨-, lead, trail, hl, ht, hs⟩ := exists_trim s.toList
  obtain ⟨pairs, gap, hp, hgap, hr⟩ := exists_stripPairs (trim s.toList).reverse
  rw [List.reverse_reverse] at hr
  refine ⟨lead, pairs, gap ++ trail, hl, hp, List.forall_mem_append.2 ⟨hgap, ht⟩, ?_⟩
  calc s.toList = lead ++ trim s.toList ++ trail := hs
    _ = lead ++ ((stripPairs (trim s.toList).reverse).2.reverse ++ pairs ++ gap) ++ trail :=
      congrArg (lead ++ · ++ trail) hr
    _ = _ := by simp

/-- A text has at most one spelling as a name and brackets, and the reader finds it. -/
theorem stripPairs_of_spells {s name : String} {n : Nat} (h : Spells s name n) (hn : IsName name) :
    trim s.toList ≠ [] ∧ stripPairs (trim s.toList).reverse = (n, name.toList.reverse) := by
  obtain ⟨lead, pairs, trail, hl, hp, ht, hs⟩ := h
  have htrim : trim s.toList = name.toList ++ pairs := by
    rw [hs, List.append_assoc lead]
    exact trim_append hl ht (hp.isTrimmed_append hn)
  have hname : stripPairs name.toList.reverse = (0, name.toList.reverse) :=
    stripPairs_name fun c hc => isNameChar_iff.2 (hn.chars c (List.mem_reverse.1 hc))
  refine ⟨?_, ?_⟩
  · rw [htrim]
    exact List.append_ne_nil_of_left_ne_nil hn.toList_ne_nil _
  · rw [htrim, List.reverse_append, stripPairs_brackets hp, hname, Nat.zero_add]

/-! ## What is read -/

theorem isNamed_ofName_iff {name : String} {t : ValueType} : t.IsNamed name ↔ t = ofName name := by
  unfold ofName
  rcases hk : Primitive.ofKeyword? name with _ | p
  · have hnone : ∀ p : Primitive, p.keyword ≠ name := fun p hp => by
      rw [Primitive.ofKeyword?_eq_some.2 hp] at hk
      cases hk
    cases t <;> simp [IsNamed, hnone]
  · have hp := Primitive.ofKeyword?_eq_some.1 hk
    cases t with
    | primitive q =>
      simp only [IsNamed, primitive.injEq]
      rw [← Primitive.ofKeyword?_eq_some, hk, Option.some.injEq, eq_comm]
    | reference c =>
      simp only [IsNamed, reduceCtorEq, iff_false]
      exact fun h => h.2 p hp
    | array base d => simp [IsNamed]

/-- The type that the reader makes of a name and a number of dimensions. -/
theorem isSpelled_iff {name : String} {n : Nat} (hn : n ≤ 255) {t : ValueType} :
    t.IsSpelled name n ↔
      t = if n = 0 then ofName name else arrayOf (ofName name) (UInt8.ofNat n) := by
  have hnot : ∀ base d, ofName name ≠ array base d := fun base d h =>
    isNamed_ofName_iff.2 h.symm
  have harray : arrayOf (ofName name) (UInt8.ofNat n) = array (ofName name) (UInt8.ofNat n) := by
    unfold arrayOf
    split
    · next h => exact absurd h (hnot _ _)
    · rfl
  have hd : ∀ d : UInt8, d = UInt8.ofNat n ↔ d.toNat = n := fun d => by
    rw [← UInt8.toNat_inj, UInt8.toNat_ofNat_of_lt' (Nat.lt_succ_of_le hn)]
  split
  · next hzero =>
    subst hzero
    cases t with
    | array base d => simpa [IsSpelled] using (hnot base d).symm
    | primitive p => simpa [IsSpelled] using isNamed_ofName_iff
    | reference c => simpa [IsSpelled] using isNamed_ofName_iff
  · next hpos =>
    rw [harray]
    cases t with
    | array base d =>
      simp only [IsSpelled, array.injEq, isNamed_ofName_iff, hd, Nat.pos_of_ne_zero hpos,
        true_and]
      exact and_comm
    | primitive p => simp [IsSpelled, hpos]
    | reference c => simp [IsSpelled, hpos]

theorem parse_of_isBlanks {s : String} (h : IsBlanks s.toList) : parse s = .error .empty := by
  simp [parse, trim_eq_nil_iff.2 h]

/-- A text with a spelling: too many brackets come first, then `void`. -/
theorem parse_of_spells {s name : String} {n : Nat} (h : Spells s name n) (hn : IsName name) :
    parse s =
      if 255 < n then .error (.invalid s)
      else if name = "void" then .error .void
      else .ok (if n = 0 then ofName name else arrayOf (ofName name) (UInt8.ofNat n)) := by
  obtain ⟨hne, hstrip⟩ := stripPairs_of_spells h hn
  have hchars : name.toList.reverse.all isNameChar := by
    rw [List.all_reverse]
    exact (isName_iff.1 hn).2
  simp only [parse, List.isEmpty_iff, hne, hstrip, if_false, List.reverse_reverse,
    String.ofList_toList, hchars, Bool.not_true, Bool.or_false, String.isEmpty_iff, hn.nonempty]
  split_ifs <;> rfl

theorem parse_of_not_spells {s : String} (hs : ¬IsBlanks s.toList)
    (h : ∀ name n, Spells s name n → IsName name → 255 < n) :
    parse s = .error (.invalid s) := by
  have hspells := spells_stripPairs s
  have hne : trim s.toList ≠ [] := mt trim_eq_nil_iff.1 hs
  simp only [parse, List.isEmpty_iff, hne, if_false]
  generalize (stripPairs (trim s.toList).reverse).1 = n at hspells ⊢
  generalize (stripPairs (trim s.toList).reverse).2 = rest at hspells ⊢
  have hlong := h _ _ hspells
  split
  · rfl
  next hn =>
  have hname : ¬IsName (String.ofList rest.reverse) := mt hlong hn
  have hvoid : String.ofList rest.reverse ≠ "void" := by
    intro hvoid
    exact hname (hvoid ▸ isName_void)
  rw [if_neg hvoid, if_pos]
  rw [isName_iff, String.toList_ofList, List.all_reverse] at hname
  by_contra hc
  simp only [Bool.or_eq_true, String.isEmpty_iff, Bool.not_eq_true', not_or,
    Bool.not_eq_false] at hc
  exact hname hc

theorem parse_cases (s : String) :
    (IsBlanks s.toList ∧ parse s = .error .empty) ∨
      (∃ n ≤ 255, Spells s "void" n ∧ parse s = .error .void) ∨
      (∃ name n t, Spells s name n ∧ n ≤ 255 ∧ IsName name ∧ name ≠ "void" ∧ t.IsSpelled name n ∧
        parse s = .ok t) ∨
      (¬IsBlanks s.toList ∧ (∀ name n, Spells s name n → IsName name → 255 < n) ∧
        parse s = .error (.invalid s)) := by
  by_cases hb : IsBlanks s.toList
  · exact .inl ⟨hb, parse_of_isBlanks hb⟩
  by_cases hlong : ∀ name n, Spells s name n → IsName name → 255 < n
  · exact .inr (.inr (.inr ⟨hb, hlong, parse_of_not_spells hb hlong⟩))
  obtain ⟨name, n, hs, hname, hn⟩ : ∃ name n, Spells s name n ∧ IsName name ∧ n ≤ 255 := by
    simpa using hlong
  have hparse := parse_of_spells hs hname
  rw [if_neg (Nat.not_lt.2 hn)] at hparse
  by_cases hvoid : name = "void"
  · subst hvoid
    exact .inr (.inl ⟨n, hn, hs, hparse⟩)
  · rw [if_neg hvoid] at hparse
    exact .inr (.inr (.inl ⟨name, n, _, hs, hn, hname, hvoid, (isSpelled_iff hn).2 rfl, hparse⟩))

theorem parse_eq_ok_iff {s : String} {t : ValueType} :
    parse s = .ok t ↔ ∃ name n, Spells s name n ∧ n ≤ 255 ∧ IsName name ∧ name ≠ "void" ∧
      t.IsSpelled name n := by
  constructor
  · intro h
    rcases parse_cases s with ⟨-, he⟩ | ⟨_, _, -, he⟩ |
      ⟨name, n, t', hs, hn, hname, hvoid, ht, he⟩ | ⟨-, -, he⟩
    all_goals rw [h] at he
    case inr.inr.inl =>
      obtain rfl := Except.ok.inj he
      exact ⟨name, n, hs, hn, hname, hvoid, ht⟩
    all_goals cases he
  · rintro ⟨name, n, hs, hn, hname, hvoid, ht⟩
    rw [parse_of_spells hs hname, if_neg (Nat.not_lt.2 hn), if_neg hvoid,
      (isSpelled_iff hn).1 ht]

/-! ## Reading a type back -/

theorem IsSpelled.isCanonical {name : String} {n : Nat} {t : ValueType} (h : t.IsSpelled name n)
    (hname : IsName name) (hvoid : name ≠ "void") : t.IsCanonical := by
  have helement : ∀ e : ValueType, e.IsNamed name → e.IsElement := by
    intro e he
    cases e with
    | primitive p => trivial
    | reference c =>
      obtain ⟨rfl, hkey⟩ := he
      exact ⟨hname, hvoid, hkey⟩
    | array base d => exact he.elim
  cases t with
  | primitive p => trivial
  | reference c => exact helement _ h.2
  | array base d =>
    obtain ⟨rfl, hpos, hbase⟩ := h
    refine ⟨?_, helement base hbase⟩
    rintro rfl
    exact absurd hpos (by decide)

theorem isCanonical_of_parse {s : String} {t : ValueType} (h : parse s = .ok t) :
    t.IsCanonical := by
  obtain ⟨name, n, -, -, hname, hvoid, ht⟩ := parse_eq_ok_iff.1 h
  exact ht.isCanonical hname hvoid

theorem IsElement.isNamed {t : ValueType} (h : t.IsElement) :
    t.IsNamed t.text ∧ IsName t.text ∧ t.text ≠ "void" := by
  cases t with
  | primitive p => exact ⟨rfl, isName_keyword p⟩
  | reference c => exact ⟨⟨rfl, h.2.2⟩, h.1, h.2.1⟩
  | array base d => exact h.elim

theorem brackets_replicate (n : Nat) :
    Brackets n (String.join (List.replicate n "[]")).toList := by
  induction n with
  | zero => exact .none
  | succ n ih =>
    have h := ih.pair isBlanks_nil
    rw [String.toList_join] at h ⊢
    rw [List.replicate_succ', List.flatMap_append]
    simpa using h

theorem mem_brackets {n : Nat} {c : Char}
    (h : c ∈ (String.join (List.replicate n "[]")).toList) : c = '[' ∨ c = ']' := by
  rw [String.toList_join, List.mem_flatMap] at h
  obtain ⟨pair, hpair, hc⟩ := h
  obtain rfl := List.eq_of_mem_replicate hpair
  simpa using hc

theorem spells_self (name : String) : Spells name name 0 :=
  ⟨[], [], [], isBlanks_nil, .none, isBlanks_nil, by simp⟩

theorem spells_brackets (name : String) (n : Nat) :
    Spells (name ++ String.join (List.replicate n "[]")) name n :=
  ⟨[], _, [], isBlanks_nil, brackets_replicate n, isBlanks_nil, by simp⟩

theorem parse_text_iff {t : ValueType} : parse t.text = .ok t ↔ t.IsCanonical := by
  refine ⟨isCanonical_of_parse, fun h => parse_eq_ok_iff.2 ?_⟩
  cases t with
  | primitive p =>
    obtain ⟨hnamed, hname, hvoid⟩ := IsElement.isNamed (t := primitive p) h
    exact ⟨_, 0, spells_self _, by simp, hname, hvoid, rfl, hnamed⟩
  | reference c =>
    obtain ⟨hnamed, hname, hvoid⟩ := IsElement.isNamed (t := reference c) h
    exact ⟨_, 0, spells_self _, by simp, hname, hvoid, rfl, hnamed⟩
  | array base d =>
    obtain ⟨hd, hbase⟩ := h
    obtain ⟨hnamed, hname, hvoid⟩ := hbase.isNamed
    have hpos : 0 < d.toNat := by
      refine Nat.pos_of_ne_zero fun hzero => hd ?_
      rwa [← UInt8.toNat_inj]
    have hlt := d.toNat_lt
    exact ⟨base.text, d.toNat, spells_brackets _ _, by omega, hname, hvoid, rfl, hpos, hnamed⟩

theorem text_injective {t t' : ValueType} (ht : t.IsCanonical) (ht' : t'.IsCanonical)
    (h : t.text = t'.text) : t = t' := by
  have hparse := parse_text_iff.2 ht
  rw [h, parse_text_iff.2 ht'] at hparse
  exact (Except.ok.inj hparse).symm

/-- A text is read as a type if and only if it is a name other than `void` and up to 255 pairs of
brackets, and then as the type of that name with as many dimensions. A text of blanks is empty,
`void` with up to 255 pairs is no type of values, and all other texts are invalid, also those with
more pairs than an array type can count. The canonical types are those that are read back from
their text. -/
theorem parse_grammar :
    (∀ s : String,
      (∀ t, parse s = .ok t ↔ ∃ name n, Spells s name n ∧ n ≤ 255 ∧ IsName name ∧ name ≠ "void" ∧
        t.IsSpelled name n) ∧
      (parse s = .error .empty ↔ IsBlanks s.toList) ∧
      (parse s = .error .void ↔ ∃ n ≤ 255, Spells s "void" n) ∧
      (∀ text, parse s = .error (.invalid text) ↔ text = s ∧ ¬IsBlanks s.toList ∧
        ∀ name n, Spells s name n → IsName name → 255 < n) ∧
      ∀ name n, Spells s name n → IsName name → 255 < n → parse s = .error (.invalid s)) ∧
    ∀ t : ValueType, parse t.text = .ok t ↔ t.IsCanonical := by
  refine ⟨fun s => ⟨fun t => parse_eq_ok_iff, ?_, ?_, ?_, ?_⟩, fun t => parse_text_iff⟩
  · refine ⟨fun h => ?_, parse_of_isBlanks⟩
    rcases parse_cases s with ⟨hb, -⟩ | ⟨_, _, -, he⟩ | ⟨_, _, _, _, _, _, _, _, he⟩ | ⟨-, -, he⟩
    · exact hb
    all_goals rw [h] at he; cases he
  · constructor
    · intro h
      rcases parse_cases s with ⟨-, he⟩ | ⟨n, hn, hs, -⟩ | ⟨_, _, _, _, _, _, _, _, he⟩ | ⟨-, -, he⟩
      case inr.inl => exact ⟨n, hn, hs⟩
      all_goals rw [h] at he; cases he
    · rintro ⟨n, hn, hs⟩
      rw [parse_of_spells hs isName_void, if_neg (Nat.not_lt.2 hn), if_pos rfl]
  · intro text
    constructor
    · intro h
      rcases parse_cases s with ⟨-, he⟩ | ⟨_, _, -, he⟩ | ⟨_, _, _, _, _, _, _, _, he⟩ |
        ⟨hb, hlong, he⟩
      all_goals rw [h] at he
      case inr.inr.inr =>
        obtain rfl := TypeError.invalid.inj (Except.error.inj he)
        exact ⟨rfl, hb, hlong⟩
      all_goals cases he
    · rintro ⟨rfl, hb, hlong⟩
      exact parse_of_not_spells hb hlong
  · intro name n hs hname hn
    rw [parse_of_spells hs hname, if_pos hn]

/-- With 255 pairs of brackets a text is a type, with one more it is none. -/
theorem parse_grammar_limit :
    parse "\tint [] []\n" = .ok (.array (.primitive .int) 2) ∧
      parse ("int" ++ String.join (List.replicate 255 "[]")) = .ok (.array (.primitive .int) 255) ∧
      ∀ s, s = "int" ++ String.join (List.replicate 256 "[]") →
        parse s = .error (.invalid s) := by
  have hint := (isName_keyword .int).1
  have hgap : IsBlanks [' '] := by simp [IsBlanks, isBlank]
  have hs : Spells "\tint [] []\n" "int" 2 :=
    ⟨['\t'], _, ['\n'], by simp [IsBlanks, isBlank], (Brackets.none.pair hgap).pair hgap,
      by simp [IsBlanks, isBlank], rfl⟩
  refine ⟨?_, ?_, ?_⟩
  · exact ((parse_grammar.1 _).1 _).2
      ⟨"int", 2, hs, by decide, hint, by decide, rfl, by decide, rfl⟩
  · exact ((parse_grammar.1 _).1 _).2
      ⟨"int", 255, spells_brackets _ _, by decide, hint, by decide, rfl, by decide, rfl⟩
  · rintro _ rfl
    exact (parse_grammar.1 _).2.2.2.2 "int" 256 (spells_brackets _ _) hint (by decide)

end ValueType

end Standin
