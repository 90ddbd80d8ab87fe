import Standin.Json.Reader
import Standin.Json.Writer

/-!
# Written JSON is read back

The two written forms of a value have the same words (`spells_compactChars`, `spells_prettyChars`),
and the words of a value are put together to that value again (`State.reads`). So reading what was
written gives the value (`parse?_compact`, `parse?_pretty`), as long as the value has no other
numbers than those that a text can tell (`IsWritable`).
-/

namespace Standin

namespace Json

namespace Token

/-- The characters do not go on with a number. -/
def Ends (rest : List Char) : Prop :=
  ∀ c ∈ rest.head?, c.isDigit = false ∧ c ≠ '.' ∧ c ≠ 'e' ∧ c ≠ 'E'

/-- The characters are read as the words, whatever comes after them and does not go on with a
number. -/
def Spells (cs : List Char) (ts : List Token) : Prop :=
  ∀ rest, Ends rest → scan (cs ++ rest) = (scan rest).map (ts ++ ·)

theorem scan_space {c : Char} (hc : isSpace c) (cs : List Char) : scan (c :: cs) = scan cs := by
  rw [scan, if_pos hc]

theorem scan_read {c : Char} {cs rest : List Char} {t : Token} (hc : isSpace c = false)
    (h : read? c cs = some (t, rest)) : scan (c :: cs) = (scan rest).map (t :: ·) := by
  rw [scan, if_neg (by simp [hc])]
  split
  · next h' => simp [h] at h'
  · next h' =>
    rw [h] at h'
    obtain ⟨rfl, rfl⟩ := Prod.mk.inj (Option.some.inj h')
    rfl

namespace Spells

variable {cs cs' : List Char} {ts ts' : List Token} {c : Char} {t : Token}

theorem nil : Spells [] [] := by
  intro rest _
  simp

theorem space (hc : isSpace c) (h : Spells cs ts) : Spells (c :: cs) ts := by
  intro rest hr
  rw [List.cons_append, scan_space hc, h rest hr]

/-- A word that does not depend on what follows it. -/
theorem word {w : List Char} (hc : isSpace c = false)
    (hw : ∀ rest, read? c (w ++ rest) = some (t, rest)) (h : Spells cs ts) :
    Spells (c :: (w ++ cs)) (t :: ts) := by
  intro rest hr
  rw [List.cons_append, List.append_assoc, scan_read hc (hw (cs ++ rest)), h rest hr,
    Option.map_map]
  rfl

theorem mark (hc : isSpace c = false) (hw : ∀ rest, read? c rest = some (t, rest))
    (h : Spells cs ts) : Spells (c :: cs) (t :: ts) :=
  word (w := []) hc hw h

theorem append (h : Spells cs ts) (h' : Spells cs' ts') (hne : cs' ≠ []) (he : Ends cs') :
    Spells (cs ++ cs') (ts ++ ts') := by
  intro rest hr
  have hrest : Ends (cs' ++ rest) := by
    rcases cs' with _ | ⟨c, cs'⟩
    · exact absurd rfl hne
    · exact he
  rw [List.append_assoc, h _ hrest, h' rest hr, Option.map_map]
  congr 1
  funext us
  simp

theorem blank {gap : List Char} (hgap : ∀ c ∈ gap, isSpace c) (h : Spells cs ts) :
    Spells (gap ++ cs) ts := by
  induction gap with
  | nil => exact h
  | cons c gap ih =>
    exact (ih fun d hd => hgap d (List.mem_cons_of_mem _ hd)).space (hgap c List.mem_cons_self)

end Spells

/-! ## Strings -/

theorem hexNumber?_control {n : Nat} (hn : n < 0x20) :
    Text.hexNumber? ['0', '0', Nat.digitChar (n / 16), Nat.digitChar (n % 16)] = some n := by
  have h : ∀ n : Fin 0x20,
      Text.hexNumber? ['0', '0', Nat.digitChar (n / 16), Nat.digitChar (n % 16)] = some n.val := by
    decide
  exact h ⟨n, hn⟩

theorem codePoints?_escapedChar (c : Char) {cs after : List Char} {ns : List Nat}
    (h : codePoints? cs = some (ns, after)) :
    codePoints? (escapedChar c ++ cs) = some (c.toNat :: ns, after) := by
  unfold escapedChar
  split
  · next hc => simp [codePoints?, escape?, h, hc]
  split
  · next hc => simp [codePoints?, escape?, h, hc]
  split
  · next hc => simp [codePoints?, escape?, h, hc]
  split
  · next hc => simp [codePoints?, escape?, h, hc]
  split
  · next hc => simp [codePoints?, escape?, h, hc]
  split
  · next hc => simp [codePoints?, escape?, h, hc]
  split
  · next hc => simp [codePoints?, escape?, h, hc]
  split
  · next hc =>
    simp only [List.cons_append, List.nil_append]
    rw [codePoints?, hexNumber?_control hc, h]
  · next hquote hback _ _ _ _ _ hc =>
    simp only [List.cons_append, List.nil_append]
    rw [codePoints?.eq_def]
    split <;> simp_all

theorem codePoints?_flatMap (s : List Char) (rest : List Char) :
    codePoints? (s.flatMap escapedChar ++ '"' :: rest) = some (s.map Char.toNat, rest) := by
  induction s with
  | nil => rfl
  | cons c s ih =>
    rw [List.flatMap_cons, List.append_assoc, codePoints?_escapedChar c ih]
    rfl

theorem not_isSurrogate (c : Char) :
    isHighSurrogate c.toNat = false ∧ isLowSurrogate c.toNat = false := by
  have hc : c.toNat < 0xd800 ∨ 0xdfff < c.toNat ∧ c.toNat < 0x110000 := c.valid
  simp only [isHighSurrogate, isLowSurrogate, Bool.and_eq_false_iff, decide_eq_false_iff_not]
  omega

theorem pairUp_map_toNat (s : List Char) : pairUp (s.map Char.toNat) = some s := by
  have hc := not_isSurrogate
  induction s with
  | nil => rfl
  | cons c s ih =>
    cases s with
    | nil => simp [pairUp, hc c]
    | cons c' s =>
      rw [List.map_cons, List.map_cons, pairUp]
      rw [List.map_cons] at ih
      simp [hc c, ih]

theorem Spells.string (s : String) {cs : List Char} {ts : List Token} (h : Spells cs ts) :
    Spells (stringChars s ++ cs) (.string (some s) :: ts) := by
  refine Spells.word (c := '"') (w := s.toList.flatMap escapedChar ++ ['"']) rfl (fun rest => ?_) h
  rw [List.append_assoc]
  show string? (s.toList.flatMap escapedChar ++ '"' :: rest) = some (.string (some s), rest)
  rw [string?, codePoints?_flatMap]
  simp [pairUp_map_toNat]

end Token

/-! ## Numbers -/

end Json

namespace Numeral

/-- Digits that may stand before the point of a number. -/
structure IsWhole (ds : List Char) : Prop where
  ne_nil : ds ≠ []
  isDigit : ∀ c ∈ ds, c.isDigit
  leading : 1 < ds.length → ds.head? ≠ some '0'

/-- A numeral that a text can tell: it is not an integer. -/
structure IsWritable (n : Numeral) : Prop where
  whole : IsWhole n.whole
  fraction : ∀ c ∈ n.fraction, c.isDigit
  not_int : (n.fraction.isEmpty && n.exponent.isNone &&
    !(n.negative && Nat.ofDigitChars 10 n.whole 0 == 0)) = false

end Numeral

namespace Json

open Numeral

/-- The digits after the point, with the point, if there are any. -/
def fractionChars (ds : List Char) : List Char :=
  if ds.isEmpty then [] else '.' :: ds

/-- The exponent with its sign, if there is one. -/
def exponentChars : Option Int → List Char
  | none => []
  | some e => 'e' :: (if e < 0 then '-' else '+') :: Nat.toDigits 10 e.natAbs

theorem numeralChars_eq (n : Numeral) : numeralChars n =
    (if n.negative then ['-'] else []) ++ n.whole ++ fractionChars n.fraction ++
      exponentChars n.exponent := by
  unfold numeralChars exponentChars fractionChars
  cases n.exponent <;> rfl

theorem isDigit_toDigits (n : Nat) : ∀ c ∈ Nat.toDigits 10 n, c.isDigit :=
  fun _ hc => Nat.isDigit_of_mem_toDigits (by decide) (by decide) hc

theorem head?_toDigits_ne {n : Nat} (hn : n ≠ 0) : (Nat.toDigits 10 n).head? ≠ some '0' := by
  induction n using Nat.strongRecOn with
  | ind n ih =>
    rw [Nat.toDigits_eq_if (by decide)]
    split
    · next h =>
      have hdigit : ∀ n : Fin 10, n.val ≠ 0 → Nat.digitChar n ≠ '0' := by decide
      simpa using hdigit ⟨n, h⟩ hn
    · next h =>
      have hhead := ih (n / 10) (by omega) (by omega)
      rcases hd : Nat.toDigits 10 (n / 10) with _ | ⟨d, ds⟩
      · exact absurd hd Nat.toDigits_ne_nil
      · rw [hd] at hhead
        exact hhead

theorem isWhole_toDigits (n : Nat) : IsWhole (Nat.toDigits 10 n) where
  ne_nil := Nat.toDigits_ne_nil
  isDigit := isDigit_toDigits n
  leading hlen := by
    refine head?_toDigits_ne fun hn => ?_
    rw [hn] at hlen
    exact absurd hlen (by decide)

namespace Token

theorem takeWhile_digits {ds rest : List Char} (hd : ∀ c ∈ ds, c.isDigit)
    (hr : ∀ c ∈ rest.head?, c.isDigit = false) :
    (ds ++ rest).takeWhile Char.isDigit = ds ∧ (ds ++ rest).dropWhile Char.isDigit = rest := by
  rw [List.takeWhile_append_of_pos hd, List.dropWhile_append_of_pos hd]
  rcases rest with _ | ⟨c, rest⟩
  · simp
  · simp [hr c rfl]

theorem Ends.not_isDigit {rest : List Char} (h : Ends rest) : ∀ c ∈ rest.head?, c.isDigit = false :=
  fun c hc => (h c hc).1

theorem exponent?_exponentChars (e : Option Int) {rest : List Char} (hr : Ends rest) :
    exponent? (exponentChars e ++ rest) = some (e, rest) := by
  cases e with
  | none =>
    rcases rest with _ | ⟨c, rest⟩
    · rfl
    · obtain ⟨_, _, he, hE⟩ := hr c rfl
      simp [exponentChars, exponent?, he, hE]
  | some e =>
    obtain ⟨htake, hdrop⟩ := takeWhile_digits (isDigit_toDigits e.natAbs) hr.not_isDigit
    have hdigits : ∀ negative, exponentDigits? negative (Nat.toDigits 10 e.natAbs ++ rest) =
        some (some (if negative then -(e.natAbs : Int) else e.natAbs), rest) := by
      intro negative
      simp [exponentDigits?, htake, hdrop, Nat.toDigits_ne_nil, Nat.ofDigitChars_ten_toDigits]
    by_cases he : e < 0
    · have hneg := hdigits true
      rw [if_pos rfl, show -(e.natAbs : Int) = e by omega] at hneg
      simp [exponentChars, exponent?, he, hneg]
    · have hpos := hdigits false
      rw [if_neg Bool.false_ne_true, show (e.natAbs : Int) = e by omega] at hpos
      simp [exponentChars, exponent?, he, hpos]

theorem fraction?_fractionChars {ds tail : List Char} (hd : ∀ c ∈ ds, c.isDigit)
    (ht : ∀ c ∈ tail.head?, c.isDigit = false ∧ c ≠ '.') :
    fraction? (fractionChars ds ++ tail) = some (ds, tail) := by
  rcases ds with _ | ⟨d, ds⟩
  · show fraction? tail = some ([], tail)
    unfold fraction?
    split
    · next cs => exact absurd rfl (ht '.' rfl).2
    · rfl
  · obtain ⟨htake, hdrop⟩ := takeWhile_digits hd fun c hc => (ht c hc).1
    show fraction? ('.' :: (d :: ds ++ tail)) = some (d :: ds, tail)
    simp only [fraction?, htake, hdrop]
    rfl

theorem head?_exponentChars {e : Option Int} {rest : List Char} (hr : Ends rest) :
    ∀ c ∈ (exponentChars e ++ rest).head?, c.isDigit = false ∧ c ≠ '.' := by
  intro c hc
  cases e with
  | none => exact ⟨(hr c hc).1, (hr c hc).2.1⟩
  | some e =>
    obtain rfl : 'e' = c := by simpa [exponentChars] using hc
    decide

theorem number?_written (negative : Bool) {whole ds : List Char} (hw : IsWhole whole)
    (hd : ∀ c ∈ ds, c.isDigit) (e : Option Int) {rest : List Char} (hr : Ends rest) :
    number? negative (whole ++ fractionChars ds ++ exponentChars e ++ rest) =
      some (if ds.isEmpty && e.isNone && !(negative && Nat.ofDigitChars 10 whole 0 == 0) then
        .int (if negative then -(Nat.ofDigitChars 10 whole 0 : Int)
          else Nat.ofDigitChars 10 whole 0)
        else .number ⟨negative, whole, ds, e⟩, rest) := by
  have hexp := head?_exponentChars (e := e) hr
  have htail : ∀ c ∈ (fractionChars ds ++ (exponentChars e ++ rest)).head?, c.isDigit = false := by
    intro c hc
    rcases ds with _ | ⟨d, ds⟩
    · exact (hexp c hc).1
    · obtain rfl : '.' = c := by simpa [fractionChars] using hc
      decide
  obtain ⟨htake, hdrop⟩ := takeWhile_digits hw.isDigit htail
  have hlead : (whole.isEmpty || (1 < whole.length && whole.head? == some '0')) = false := by
    simpa [hw.ne_nil] using hw.leading
  rw [List.append_assoc, List.append_assoc, number?]
  simp only [htake, hdrop, hlead, fraction?_fractionChars hd hexp, exponent?_exponentChars e hr,
    Bool.false_eq_true, if_false]
  split <;> rfl

theorem read?_digit {c : Char} (hc : c.isDigit) (cs : List Char) :
    read? c cs = number? false (c :: cs) := by
  unfold read?
  split <;> first | rfl | exact absurd hc (by decide)

theorem isSpace_of_isDigit {c : Char} (hc : c.isDigit) : isSpace c = false := by
  rcases h : isSpace c with _ | _
  · rfl
  · simp only [isSpace, Bool.or_eq_true, decide_eq_true_eq] at h
    rcases h with ((rfl | rfl) | rfl) | rfl <;> exact absurd hc (by decide)

theorem spells_number (negative : Bool) {whole ds : List Char} (hw : IsWhole whole)
    (hd : ∀ c ∈ ds, c.isDigit) (e : Option Int) :
    Spells ((if negative then ['-'] else []) ++ whole ++ fractionChars ds ++ exponentChars e)
      [if ds.isEmpty && e.isNone && !(negative && Nat.ofDigitChars 10 whole 0 == 0) then
        .int (if negative then -(Nat.ofDigitChars 10 whole 0 : Int)
          else Nat.ofDigitChars 10 whole 0)
        else .number ⟨negative, whole, ds, e⟩] := by
  intro rest hr
  have hnumber := number?_written negative hw hd e hr
  cases negative with
  | true => exact scan_read rfl hnumber
  | false =>
    rcases whole with _ | ⟨c, whole⟩
    · exact absurd rfl hw.ne_nil
    · have hc := hw.isDigit c List.mem_cons_self
      exact scan_read (isSpace_of_isDigit hc) ((read?_digit hc _).trans hnumber)

theorem spells_intChars (n : Int) : Spells (intChars n) [.int n] := by
  have hnil : ∀ c ∈ ([] : List Char), c.isDigit := by simp
  have h := fun negative => spells_number negative (isWhole_toDigits n.natAbs) hnil none
  simp only [Nat.ofDigitChars_ten_toDigits, fractionChars, exponentChars] at h
  unfold intChars
  split
  · next hn =>
    have hzero : (n.natAbs == 0) = false := by simp; omega
    have hneg := h true
    simp only [show -(n.natAbs : Int) = n by omega] at hneg
    simpa [hzero] using hneg
  · next hn =>
    have hpos := h false
    simp only [show (n.natAbs : Int) = n by omega] at hpos
    simpa using hpos

theorem spells_numeralChars {n : Numeral} (hn : n.IsWritable) :
    Spells (numeralChars n) [.number n] := by
  have h := spells_number n.negative hn.whole hn.fraction n.exponent
  rwa [hn.not_int, if_neg Bool.false_ne_true, ← numeralChars_eq] at h

end Token

/-! ## Values -/

/-- A value that a text can tell. -/
inductive IsWritable : Json → Prop
  | null : IsWritable .null
  | bool (b : Bool) : IsWritable (.bool b)
  | int (n : Int) : IsWritable (.int n)
  | number {n : Numeral} : n.IsWritable → IsWritable (.number n)
  | string (s : String) : IsWritable (.string s)
  | array {vs : List Json} : (∀ v ∈ vs, IsWritable v) → IsWritable (.array vs)
  | object {ms : List (String × Json)} : (∀ m ∈ ms, IsWritable m.2) → IsWritable (.object ms)

attribute [simp] IsWritable.null IsWritable.bool IsWritable.int IsWritable.string

@[simp]
theorem isWritable_array {vs : List Json} : (array vs).IsWritable ↔ ∀ v ∈ vs, v.IsWritable :=
  ⟨fun h => by cases h; assumption, .array⟩

@[simp]
theorem isWritable_object {ms : List (String × Json)} :
    (object ms).IsWritable ↔ ∀ m ∈ ms, m.2.IsWritable :=
  ⟨fun h => by cases h; assumption, .object⟩

mutual

/-- The words of a value. -/
def tokens : Json → List Token
  | .null => [.null]
  | .bool b => [.bool b]
  | .int n => [.int n]
  | .number n => [.number n]
  | .string s => [.string (some s)]
  | .array [] => [.openArray, .closeArray]
  | .array (v :: vs) => .openArray :: (tokens v ++ itemTokens vs)
  | .object [] => [.openObject, .closeObject]
  | .object ((k, v) :: ms) =>
    .openObject :: .string (some k) :: .colon :: (tokens v ++ memberTokens ms)
  | .unreadable => [.null]

/-- The words of the items after the first, and the closing bracket. -/
def itemTokens : List Json → List Token
  | [] => [.closeArray]
  | v :: vs => .comma :: (tokens v ++ itemTokens vs)

/-- The words of the members after the first, and the closing brace. -/
def memberTokens : List (String × Json) → List Token
  | [] => [.closeObject]
  | (k, v) :: ms => .comma :: .string (some k) :: .colon :: (tokens v ++ memberTokens ms)

end

open Token

theorem isSpace_newline (level : Nat) : ∀ c ∈ newline level, isSpace c := by
  intro c hc
  rcases List.mem_cons.1 hc with rfl | hc
  · rfl
  · rw [List.eq_of_mem_replicate hc]
    rfl

theorem spells_nullChars : Spells nullChars [.null] :=
  .word (w := ['u', 'l', 'l']) rfl (fun _ => rfl) .nil

theorem spells_boolChars (b : Bool) : Spells (boolChars b) [.bool b] := by
  cases b with
  | true => exact .word (w := ['r', 'u', 'e']) rfl (fun _ => rfl) .nil
  | false => exact .word (w := ['a', 'l', 's', 'e']) rfl (fun _ => rfl) .nil

theorem spells_stringChars (s : String) : Spells (stringChars s) [.string (some s)] := by
  simpa using Spells.nil.string s

/-- What follows an item or member up to the end of the array or object. -/
structure Closes (cs : List Char) (ts : List Token) : Prop where
  spells : Spells cs ts
  ne_nil : cs ≠ []
  ends : Ends cs

section Closes

variable {cv cs : List Char} {tv ts : List Token}

theorem Closes.ofNewline (level : Nat) (h : Spells cs ts) : Closes (newline level ++ cs) ts := by
  refine ⟨h.blank (isSpace_newline level), List.cons_ne_nil _ _, fun d hd => ?_⟩
  cases hd
  decide

theorem Closes.ofMark {c : Char} {t : Token} (hc : c ∈ [',', ']', '\x7d'])
    (hw : ∀ rest, read? c rest = some (t, rest)) (h : Spells cs ts) :
    Closes (c :: cs) (t :: ts) := by
  have hmark : ∀ c ∈ [',', ']', '\x7d'],
      isSpace c = false ∧ c.isDigit = false ∧ c ≠ '.' ∧ c ≠ 'e' ∧ c ≠ 'E' := by simp [isSpace]
  refine ⟨h.mark (hmark c hc).1 hw, List.cons_ne_nil _ _, fun d hd => ?_⟩
  cases hd
  exact (hmark c hc).2

/-- A value, and what comes after it. -/
theorem Token.Spells.followed (hv : Spells cv tv) (h : Closes cs ts) :
    Spells (cv ++ cs) (tv ++ ts) :=
  hv.append h.spells h.ne_nil h.ends

/-- A key with its value, and what comes after it. -/
theorem Token.Spells.member (k : String) (hv : Spells cv ts) :
    Spells (stringChars k ++ ':' :: cv) (.string (some k) :: .colon :: ts) :=
  (hv.mark (c := ':') rfl fun _ => rfl).string k

end Closes

theorem closes_compactItems {vs : List Json} (h : ∀ v ∈ vs, Spells (compactChars v) (tokens v)) :
    Closes (compactItems vs) (itemTokens vs) := by
  induction vs with
  | nil =>
    rw [compactItems, itemTokens]
    exact .ofMark (by decide) (fun _ => rfl) .nil
  | cons v vs ih =>
    obtain ⟨hv, hvs⟩ := List.forall_mem_cons.1 h
    rw [compactItems, itemTokens]
    exact .ofMark (by decide) (fun _ => rfl) (hv.followed (ih hvs))

theorem closes_compactMembers {ms : List (String × Json)}
    (h : ∀ m ∈ ms, Spells (compactChars m.2) (tokens m.2)) :
    Closes (compactMembers ms) (memberTokens ms) := by
  induction ms with
  | nil =>
    rw [compactMembers, memberTokens]
    exact .ofMark (by decide) (fun _ => rfl) .nil
  | cons m ms ih =>
    obtain ⟨hm, hms⟩ := List.forall_mem_cons.1 h
    rw [compactMembers, memberTokens, List.append_assoc]
    exact .ofMark (by decide) (fun _ => rfl) ((hm.followed (ih hms)).member m.1)

theorem spells_compactChars {j : Json} (h : j.IsWritable) : Spells (compactChars j) (tokens j) := by
  induction h with
  | null => exact spells_nullChars
  | bool b => exact spells_boolChars b
  | int n => exact spells_intChars n
  | number hn => exact spells_numeralChars hn
  | string s => exact spells_stringChars s
  | @array vs _ ih =>
    cases vs with
    | nil => exact .mark rfl (fun _ => rfl) (.mark rfl (fun _ => rfl) .nil)
    | cons v vs =>
      obtain ⟨hv, hvs⟩ := List.forall_mem_cons.1 ih
      rw [compactChars, tokens]
      exact .mark rfl (fun _ => rfl) (hv.followed (closes_compactItems hvs))
  | @object ms _ ih =>
    cases ms with
    | nil => exact .mark rfl (fun _ => rfl) (.mark rfl (fun _ => rfl) .nil)
    | cons m ms =>
      obtain ⟨hm, hms⟩ := List.forall_mem_cons.1 ih
      rw [compactChars, tokens, List.append_assoc]
      exact .mark rfl (fun _ => rfl) ((hm.followed (closes_compactMembers hms)).member m.1)

theorem closes_prettyItems (level : Nat) {vs : List Json}
    (h : ∀ v ∈ vs, ∀ level, Spells (prettyChars level v) (tokens v)) :
    Closes (prettyItems level vs) (itemTokens vs) := by
  induction vs with
  | nil =>
    rw [prettyItems, itemTokens]
    exact .ofNewline level (.mark rfl (fun _ => rfl) .nil)
  | cons v vs ih =>
    obtain ⟨hv, hvs⟩ := List.forall_mem_cons.1 h
    rw [prettyItems, itemTokens, List.append_assoc]
    exact .ofMark (by decide) (fun _ => rfl)
      (((hv (level + 1)).followed (ih hvs)).blank (isSpace_newline (level + 1)))

theorem closes_prettyMembers (level : Nat) {ms : List (String × Json)}
    (h : ∀ m ∈ ms, ∀ level, Spells (prettyChars level m.2) (tokens m.2)) :
    Closes (prettyMembers level ms) (memberTokens ms) := by
  induction ms with
  | nil =>
    rw [prettyMembers, memberTokens]
    exact .ofNewline level (.mark rfl (fun _ => rfl) .nil)
  | cons m ms ih =>
    obtain ⟨hm, hms⟩ := List.forall_mem_cons.1 h
    have hvalue := (((hm (level + 1)).followed (ih hms)).space (c := ' ') rfl).member m.1
    rw [prettyMembers, memberTokens, List.append_assoc, List.append_assoc]
    exact .ofMark (by decide) (fun _ => rfl) (hvalue.blank (isSpace_newline (level + 1)))

theorem spells_prettyChars {j : Json} (h : j.IsWritable) (level : Nat) :
    Spells (prettyChars level j) (tokens j) := by
  induction h generalizing level with
  | null => exact spells_nullChars
  | bool b => exact spells_boolChars b
  | int n => exact spells_intChars n
  | number hn => exact spells_numeralChars hn
  | string s => exact spells_stringChars s
  | @array vs _ ih =>
    cases vs with
    | nil => exact .mark rfl (fun _ => rfl) (.mark rfl (fun _ => rfl) .nil)
    | cons v vs =>
      obtain ⟨hv, hvs⟩ := List.forall_mem_cons.1 ih
      have hitems := (hv (level + 1)).followed (closes_prettyItems level hvs)
      rw [prettyChars, tokens, List.append_assoc]
      exact .mark rfl (fun _ => rfl) (hitems.blank (isSpace_newline (level + 1)))
  | @object ms _ ih =>
    cases ms with
    | nil => exact .mark rfl (fun _ => rfl) (.mark rfl (fun _ => rfl) .nil)
    | cons m ms =>
      obtain ⟨hm, hms⟩ := List.forall_mem_cons.1 ih
      have hvalue := (((hm (level + 1)).followed (closes_prettyMembers level hms)).space
        (c := ' ') rfl).member m.1
      rw [prettyChars, tokens, List.append_assoc, List.append_assoc]
      exact .mark rfl (fun _ => rfl) (hvalue.blank (isSpace_newline (level + 1)))

/-! ## Reading the words -/

namespace State

/-- What becomes of a state by the words. -/
def run (s : State) (ts : List Token) : Option State :=
  ts.foldlM step s

theorem run_cons {s s' : State} {t : Token} (h : s.step t = some s') (ts : List Token) :
    s.run (t :: ts) = s'.run ts := by
  rw [run, List.foldlM_cons, h]
  rfl

/-- A member whose key is a text. -/
def keyed (m : String × Json) : Option String × Json :=
  (some m.1, m.2)

theorem closeObject_keyed (ms : List (String × Json)) :
    closeObject (ms.map keyed).reverse = .object ms := by
  have hkeys : (ms.map keyed).mapM (fun m : Option String × Json => m.1.map fun k => (k, m.2)) =
      some ms := by
    induction ms with
    | nil => rfl
    | cons m ms ih =>
      rw [List.map_cons, List.mapM_cons, ih]
      rfl
  unfold closeObject
  rw [List.reverse_reverse]
  simp only [hkeys]

/-- The words of a value, where one is expected, put it in its place. -/
def Reads (v : Json) : Prop :=
  ∀ stack ts, run (.value stack) (tokens v ++ ts) = (plug v stack).run ts

theorem run_firstItem (v : Json) (stack : List Frame) (ts : List Token) :
    run (.firstItem stack) (tokens v ++ ts) =
      run (.value (.array [] :: stack)) (tokens v ++ ts) := by
  have hfirst : ∃ t us, tokens v = t :: us ∧ t ≠ .closeArray := by
    rcases v with _ | b | n | n | s | ⟨_ | ⟨_, _⟩⟩ | ⟨_ | ⟨_, _⟩⟩ | _ <;>
      exact ⟨_, _, by rw [tokens], Token.noConfusion⟩
  obtain ⟨t, us, hv, ht⟩ := hfirst
  rw [hv, List.cons_append, run, run, List.foldlM_cons, List.foldlM_cons]
  cases t <;> first | rfl | exact absurd rfl ht

theorem run_itemTokens {vs : List Json} (h : ∀ v ∈ vs, Reads v) (items : List Json)
    (stack : List Frame) (ts : List Token) :
    run (.next (.array items.reverse) stack) (itemTokens vs ++ ts) =
      (plug (.array (items ++ vs)) stack).run ts := by
  induction vs generalizing items with
  | nil =>
    rw [itemTokens, List.append_nil]
    refine (run_cons ?_ ts).trans rfl
    simp [step]
  | cons v vs ih =>
    obtain ⟨hv, hvs⟩ := List.forall_mem_cons.1 h
    have hrest := ih hvs (items ++ [v])
    rw [List.reverse_append, List.append_assoc] at hrest
    rw [itemTokens, List.cons_append, List.append_assoc, run_cons rfl, hv]
    exact hrest

theorem run_memberTokens {ms : List (String × Json)} (h : ∀ m ∈ ms, Reads m.2)
    (members : List (String × Json)) (stack : List Frame) (ts : List Token) :
    run (.next (.object (members.map keyed).reverse) stack) (memberTokens ms ++ ts) =
      (plug (.object (members ++ ms)) stack).run ts := by
  induction ms generalizing members with
  | nil =>
    rw [memberTokens, List.append_nil]
    refine run_cons ?_ ts
    simp [step, closeObject_keyed]
  | cons m ms ih =>
    obtain ⟨hm, hms⟩ := List.forall_mem_cons.1 h
    have hrest := ih hms (members ++ [m])
    rw [List.map_append, List.reverse_append, List.append_assoc] at hrest
    rw [memberTokens, List.cons_append, List.cons_append, List.cons_append, List.append_assoc,
      run_cons rfl, run_cons rfl, run_cons rfl, hm]
    exact hrest

theorem reads {v : Json} (h : v.IsWritable) : Reads v := by
  intro stack ts
  induction h generalizing stack ts with
  | null => exact run_cons rfl ts
  | bool b => exact run_cons rfl ts
  | int n => exact run_cons rfl ts
  | number _ => exact run_cons rfl ts
  | string s => exact run_cons rfl ts
  | @array vs _ ih =>
    cases vs with
    | nil => exact (run_cons rfl _).trans (run_cons rfl ts)
    | cons v vs =>
      obtain ⟨hv, hvs⟩ := List.forall_mem_cons.1 ih
      rw [tokens, List.cons_append, List.append_assoc, run_cons rfl, run_firstItem, hv]
      exact run_itemTokens hvs [v] stack ts
  | @object ms _ ih =>
    cases ms with
    | nil => exact (run_cons rfl _).trans (run_cons rfl ts)
    | cons m ms =>
      obtain ⟨hm, hms⟩ := List.forall_mem_cons.1 ih
      rw [tokens, List.cons_append, List.cons_append, List.cons_append, List.append_assoc,
        run_cons rfl, run_cons rfl, run_cons rfl, hm]
      exact run_memberTokens hms [m] stack ts

end State

theorem ofTokens?_tokens {v : Json} (h : v.IsWritable) : ofTokens? (tokens v) = some v := by
  have hrun := State.reads h [] []
  rw [List.append_nil] at hrun
  unfold ofTokens?
  rw [show (tokens v).foldlM State.step (State.value []) = some (.done v) from hrun]
  rfl

theorem parse?_of_spells {v : Json} (h : v.IsWritable) {cs : List Char}
    (hcs : Spells cs (tokens v)) : parse? (String.ofList cs) = some v := by
  have hscan : scan cs = some (tokens v) := by
    have := hcs [] (by simp [Ends])
    simpa [scan] using this
  rw [parse?, String.toList_ofList, hscan]
  exact ofTokens?_tokens h

/-- Reading the compact form gives the value. -/
theorem parse?_compact {v : Json} (h : v.IsWritable) : parse? v.compact = some v :=
  parse?_of_spells h (spells_compactChars h)

/-- Reading the form over lines gives the value. -/
theorem parse?_pretty {v : Json} (h : v.IsWritable) : parse? v.pretty = some v :=
  parse?_of_spells h (spells_prettyChars h 0)

end Json

end Standin
