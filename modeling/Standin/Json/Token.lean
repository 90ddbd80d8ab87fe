import Standin.Json.Basic
import Standin.Text.Hex

/-!
# JSON tokens

The words of a JSON text (`Token.scan`). A string with an unpaired surrogate is a word, but it
denotes no text.
-/

namespace Standin.Json

inductive Token
  | openArray
  | closeArray
  | openObject
  | closeObject
  | comma
  | colon
  | null
  | bool (b : Bool)
  | int (n : Int)
  | number (n : Numeral)
  | string (s : Option String)
deriving DecidableEq, Repr

namespace Token

/-- The characters that may stand between words. -/
def isSpace (c : Char) : Bool :=
  c = ' ' || c = '\n' || c = '\t' || c = '\r'

/-- The character that a letter after a backslash stands for. -/
def escape? : Char → Option Char
  | '"' => some '"'
  | '\\' => some '\\'
  | '/' => some '/'
  | 'b' => some '\x08'
  | 'f' => some '\x0c'
  | 'n' => some '\n'
  | 'r' => some '\r'
  | 't' => some '\t'
  | _ => none

/-- The code points of a string up to its closing quotation mark, surrogates one by one, and what
follows it. -/
def codePoints? : List Char → Option (List Nat × List Char)
  | [] => none
  | '"' :: rest => some ([], rest)
  | '\\' :: 'u' :: a :: b :: c :: d :: rest =>
    match Text.hexNumber? [a, b, c, d], codePoints? rest with
    | some n, some (ns, after) => some (n :: ns, after)
    | _, _ => none
  | '\\' :: c :: rest =>
    match escape? c, codePoints? rest with
    | some e, some (ns, after) => some (e.toNat :: ns, after)
    | _, _ => none
  | c :: rest =>
    if c = '\\' ∨ c.toNat < 0x20 then none
    else match codePoints? rest with
      | some (ns, after) => some (c.toNat :: ns, after)
      | none => none

def isHighSurrogate (n : Nat) : Bool :=
  0xd800 ≤ n && n < 0xdc00

def isLowSurrogate (n : Nat) : Bool :=
  0xdc00 ≤ n && n < 0xe000

/-- The text of code points in which surrogates come in pairs, a high one and a low one. -/
def pairUp : List Nat → Option (List Char)
  | [] => some []
  | [n] => if isHighSurrogate n || isLowSurrogate n then none else some [Char.ofNat n]
  | high :: low :: rest =>
    if isHighSurrogate high then
      if isLowSurrogate low then
        (pairUp rest).map (Char.ofNat (0x10000 + (high - 0xd800) * 0x400 + (low - 0xdc00)) :: ·)
      else none
    else if isLowSurrogate high then none
    else (pairUp (low :: rest)).map (Char.ofNat high :: ·)

/-- A string after its opening quotation mark. -/
def string? (s : List Char) : Option (Token × List Char) :=
  (codePoints? s).map fun (ns, rest) => (.string ((pairUp ns).map String.ofList), rest)

/-- The fraction after the whole digits, empty if there is none. -/
def fraction? : List Char → Option (List Char × List Char)
  | '.' :: cs =>
    let digits := cs.takeWhile Char.isDigit
    if digits.isEmpty then none else some (digits, cs.dropWhile Char.isDigit)
  | cs => some ([], cs)

/-- The digits of a power of ten after its sign. -/
def exponentDigits? (negative : Bool) (cs : List Char) : Option (Option Int × List Char) :=
  let digits := cs.takeWhile Char.isDigit
  if digits.isEmpty then none
  else
    let n : Int := Nat.ofDigitChars 10 digits 0
    some (some (if negative then -n else n), cs.dropWhile Char.isDigit)

/-- The power of ten after the fraction. -/
def exponent? : List Char → Option (Option Int × List Char)
  | c :: cs =>
    if c = 'e' ∨ c = 'E' then
      match cs with
      | '+' :: ds => exponentDigits? false ds
      | '-' :: ds => exponentDigits? true ds
      | ds => exponentDigits? false ds
    else some (none, c :: cs)
  | [] => some (none, [])

/-- A number after its sign. -/
def number? (negative : Bool) (cs : List Char) : Option (Token × List Char) :=
  let whole := cs.takeWhile Char.isDigit
  if whole.isEmpty || (1 < whole.length && whole.head? == some '0') then none
  else
    match fraction? (cs.dropWhile Char.isDigit) with
    | none => none
    | some (fraction, afterFraction) =>
      match exponent? afterFraction with
      | none => none
      | some (exponent, rest) =>
        let n := Nat.ofDigitChars 10 whole 0
        if fraction.isEmpty && exponent.isNone && !(negative && n == 0) then
          some (.int (if negative then -n else n), rest)
        else some (.number ⟨negative, whole, fraction, exponent⟩, rest)

/-- The word that starts with `c`, and what follows it. -/
def read? (c : Char) (cs : List Char) : Option (Token × List Char) :=
  match c, cs with
  | '[', _ => some (.openArray, cs)
  | ']', _ => some (.closeArray, cs)
  | '\x7b', _ => some (.openObject, cs)
  | '\x7d', _ => some (.closeObject, cs)
  | ',', _ => some (.comma, cs)
  | ':', _ => some (.colon, cs)
  | '"', _ => string? cs
  | '-', _ => number? true cs
  | 'n', 'u' :: 'l' :: 'l' :: rest => some (.null, rest)
  | 't', 'r' :: 'u' :: 'e' :: rest => some (.bool true, rest)
  | 'f', 'a' :: 'l' :: 's' :: 'e' :: rest => some (.bool false, rest)
  | _, _ => number? false (c :: cs)

/-! ### What follows a word is shorter -/

theorem length_dropWhile_le (p : Char → Bool) (cs : List Char) :
    (cs.dropWhile p).length ≤ cs.length :=
  (List.dropWhile_suffix p).length_le

theorem codePoints?_length {s : List Char} {ns : List Nat} {rest : List Char}
    (h : codePoints? s = some (ns, rest)) : rest.length < s.length := by
  fun_induction codePoints? s generalizing ns rest with
  | case2 r => grind
  | case3 a b c d r n ns' after hr hn ih =>
    obtain ⟨-, rfl⟩ := by simpa using h
    have := ih hr
    simp only [List.length_cons]
    omega
  | case5 c r _ e ns' after hr he ih =>
    obtain ⟨-, rfl⟩ := by simpa using h
    have := ih hr
    simp only [List.length_cons]
    omega
  | case8 c r _ _ _ hc ns' after hr ih =>
    obtain ⟨-, rfl⟩ := by simpa using h
    have := ih hr
    simp only [List.length_cons]
    omega
  | _ => simp at h

theorem fraction?_length {s ds rest : List Char} (h : fraction? s = some (ds, rest)) :
    rest.length ≤ s.length := by
  unfold fraction? at h
  split at h
  · next cs =>
    have := length_dropWhile_le Char.isDigit cs
    grind
  · grind

theorem exponentDigits?_length {neg : Bool} {s rest : List Char} {e : Option Int}
    (h : exponentDigits? neg s = some (e, rest)) : rest.length ≤ s.length := by
  have := length_dropWhile_le Char.isDigit s
  unfold exponentDigits? at h
  grind

theorem exponent?_length {s rest : List Char} {e : Option Int}
    (h : exponent? s = some (e, rest)) : rest.length ≤ s.length := by
  unfold exponent? at h
  split at h
  · split at h
    · split at h <;> have := exponentDigits?_length h <;> simp_all <;> omega
    · grind
  · grind

theorem number?_length {neg : Bool} {s rest : List Char} {t : Token}
    (h : number? neg s = some (t, rest)) : rest.length < s.length := by
  unfold number? at h
  simp only at h
  split at h
  · simp at h
  · next hne =>
    have hd : (s.dropWhile Char.isDigit).length < s.length := by
      cases s with
      | nil => simp at hne
      | cons c cs =>
        by_cases hc : c.isDigit
        · simpa [List.dropWhile_cons, hc] using
            Nat.lt_succ_of_le (length_dropWhile_le Char.isDigit cs)
        · simp [hc] at hne
    split at h
    · simp at h
    · next hf =>
      have hf := fraction?_length hf
      split at h
      · simp at h
      · next he =>
        have he := exponent?_length he
        split at h <;> obtain ⟨-, rfl⟩ := Prod.mk.injEq .. ▸ Option.some.inj h <;> omega

theorem read?_length {c : Char} {cs rest : List Char} {t : Token}
    (h : read? c cs = some (t, rest)) : rest.length ≤ cs.length := by
  unfold read? at h
  split at h
  all_goals try (simp only [Option.some.injEq, Prod.mk.injEq] at h; grind)
  · obtain ⟨p, hp, heq⟩ := Option.map_eq_some_iff.1 h
    have := codePoints?_length hp
    obtain ⟨-, rfl⟩ := Prod.mk.injEq .. ▸ heq
    omega
  · exact Nat.le_of_lt (number?_length h)
  · exact Nat.le_of_lt_succ (number?_length h)

/-- The words of a text. -/
def scan (s : List Char) : Option (List Token) :=
  match s with
  | [] => some []
  | c :: cs =>
    if isSpace c then scan cs
    else
      match _h : read? c cs with
      | none => none
      | some (t, rest) => (scan rest).map (t :: ·)
termination_by s.length
decreasing_by
  · simp
  · simpa using Nat.lt_succ_of_le (read?_length _h)

end Token

end Standin.Json
