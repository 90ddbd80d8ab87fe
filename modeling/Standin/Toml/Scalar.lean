import Standin.Toml.Text

/-!
# Numbers and dates of TOML

Only integers keep their value: of the other numbers it matters that they can be represented, and of
dates and times that they exist.
-/

namespace Standin.Toml

/-! ### Numbers -/

/-- Digits, between any two of which an underscore may stand. -/
def moreDigits (isDigit : Char → Bool) : List Char → Option (List Char × List Char)
  | [] => some ([], [])
  | c :: rest =>
    if isDigit c then do
      let (ds, rest) ← moreDigits isDigit rest
      return (c :: ds, rest)
    else if c == '_' then
      if rest.head?.any isDigit then moreDigits isDigit rest else none
    else some ([], c :: rest)

/-- At least one digit. -/
def digits? (isDigit : Char → Bool) (s : List Char) : Option (List Char × List Char) :=
  if s.head?.any isDigit then moreDigits isDigit s else none

/-- A decimal number without useless zeros in front. -/
def decimal? : List Char → Option (List Char × List Char)
  | '0' :: rest => some (['0'], rest)
  | s => digits? Char.isDigit s

/-- The sign and the rest. -/
def sign : List Char → Bool × List Char
  | '+' :: rest => (false, rest)
  | '-' :: rest => (true, rest)
  | s => (false, s)

/-- The power of ten after `e`, if one is there. -/
def exponent? : List Char → Option (Option Int × List Char)
  | 'e' :: rest | 'E' :: rest => do
    let (negative, rest) := sign rest
    let (ds, rest) ← digits? Char.isDigit rest
    let n : Int := Nat.ofDigitChars 10 ds 0
    return (some (if negative then -n else n), rest)
  | s => some (none, s)

/-- The fraction after a point, if one is there. -/
def fraction? : List Char → Option (Option (List Char) × List Char)
  | '.' :: rest => do
    let (ds, rest) ← digits? Char.isDigit rest
    return (some ds, rest)
  | s => some (none, s)

/-- The decimal digits times a power of ten are too large for a number of 64 bits. Up to 308 places
before the point never are, more than 309 always. -/
def isTooLarge (digits : List Char) (power : Int) : Bool :=
  let significant := digits.dropWhile (· == '0')
  let places := significant.length + power
  if significant.isEmpty || places < 309 then false
  else if 309 < places then true
  else
    let n := Nat.ofDigitChars 10 significant 0
    if 0 ≤ power then (Nat.pow 2 54 - 1) * Nat.pow 2 970 ≤ n * Nat.pow 10 power.toNat
    else (Nat.pow 2 54 - 1) * Nat.pow 2 970 * Nat.pow 10 (-power).toNat ≤ n

/-- An integer that fits into 64 bits. -/
def integer? (n : Int) : Option Toml :=
  if -Nat.pow 2 63 ≤ n ∧ n < Nat.pow 2 63 then some (.integer n) else none

/-- An integer in base `base`, after the letter that says so. -/
def inBase? (base : Nat) (s : List Char) : Option (Toml × List Char) := do
  let (ds, rest) ← digits? (fun c => (Text.hexDigit? c).any (· < base)) s
  return (← integer? (← Text.numberIn? base ds), rest)

/-- A number after its sign. -/
def unsigned? (negative : Bool) (s : List Char) : Option (Toml × List Char) := do
  let (whole, rest) ← decimal? s
  let (fraction, rest) ← fraction? rest
  let (exponent, rest) ← exponent? rest
  if fraction.isNone && exponent.isNone then
    let n : Int := Nat.ofDigitChars 10 whole 0
    return (← integer? (if negative then -n else n), rest)
  else
    let fraction := fraction.getD []
    let large := isTooLarge (whole ++ fraction) (exponent.getD 0 - fraction.length)
    if large && !negative then none else some (.float, rest)

def number? : List Char → Option (Toml × List Char)
  | '0' :: 'x' :: rest => inBase? 16 rest
  | '0' :: 'o' :: rest => inBase? 8 rest
  | '0' :: 'b' :: rest => inBase? 2 rest
  | s =>
    let (negative, rest) := sign s
    match rest with
    | 'i' :: 'n' :: 'f' :: rest | 'n' :: 'a' :: 'n' :: rest => some (.float, rest)
    | _ => unsigned? negative rest

/-! ### Dates and times -/

/-- Two digits that give a number from `lo` to `hi`. -/
def twoDigits? (lo hi : Nat) : List Char → Option (Nat × List Char)
  | a :: b :: rest =>
    if a.isDigit && b.isDigit then
      let n := Nat.ofDigitChars 10 [a, b] 0
      if lo ≤ n ∧ n ≤ hi then some (n, rest) else none
    else none
  | _ => none

def daysIn (year month : Nat) : Nat :=
  if month = 2 then
    if year % 4 = 0 ∧ (year % 100 ≠ 0 ∨ year % 400 = 0) then 29 else 28
  else if month ∈ [4, 6, 9, 11] then 30
  else 31

/-- The rest after a character that must stand there. -/
def mark? (c : Char) : List Char → Option (List Char)
  | d :: rest => if d = c then some rest else none
  | [] => none

/-- The rest after the month and the day of a year. -/
def monthAndDay? (year : Nat) (s : List Char) : Option (List Char) := do
  let (month, rest) ← twoDigits? 1 12 s
  let (_, rest) ← twoDigits? 1 (daysIn year month) (← mark? '-' rest)
  return rest

/-- The rest after the minutes and seconds, with a fraction of a second if there is one. -/
def minutesAndSeconds? (s : List Char) : Option (List Char) := do
  let (_, rest) ← twoDigits? 0 59 s
  let (_, rest) ← twoDigits? 0 60 (← mark? ':' rest)
  match rest with
  | '.' :: c :: rest => if c.isDigit then some (rest.dropWhile Char.isDigit) else none
  | '.' :: _ => none
  | _ => return rest

/-- The rest after the distance from universal time, if it is given. -/
def zone? : List Char → Option (List Char)
  | 'Z' :: rest | 'z' :: rest => some rest
  | '+' :: rest | '-' :: rest => do
    let (_, rest) ← twoDigits? 0 23 rest
    let (_, rest) ← twoDigits? 0 59 (← mark? ':' rest)
    return rest
  | s => some s

/-- The rest after the time of a day. -/
def timeOfDay? (s : List Char) : Option (List Char) :=
  match twoDigits? 0 23 s with
  | some (_, ':' :: rest) => minutesAndSeconds? rest
  | _ => none

/-- The rest after the time that follows a date, if one does. A blank after a date divides it from a
time only if two digits and a colon come next. -/
def timeAfterDate? (s : List Char) : Option (List Char) :=
  match s with
  | 'T' :: time | 't' :: time | ' ' :: time =>
    match twoDigits? 0 23 time with
    | some (_, ':' :: rest) => (minutesAndSeconds? rest).bind zone?
    | _ => some s
  | _ => some s

/-- A date or a time looks like one from its first mark on; a number does not have that mark. -/
def looksLikeDate : List Char → Bool
  | a :: b :: c :: d :: '-' :: _ => a.isDigit && b.isDigit && c.isDigit && d.isDigit
  | a :: b :: ':' :: _ => a.isDigit && b.isDigit
  | _ => false

/-- The rest after a date, a time or both. -/
def date? : List Char → Option (List Char)
  | a :: b :: c :: d :: '-' :: rest => do
    timeAfterDate? (← monthAndDay? (Nat.ofDigitChars 10 [a, b, c, d] 0) rest)
  | s => timeOfDay? s

/-- A value without parts, in a document of `size` bytes. -/
def scalarValue? (size : Nat) (s : List Char) : Option (Toml × List Char) :=
  match s with
  | '"' :: _ | '\x27' :: _ =>
    (string? s).map fun (text, rest) => (.string (String.ofList text) (size - bytes s), rest)
  | 't' :: 'r' :: 'u' :: 'e' :: rest => some (.boolean true, rest)
  | 'f' :: 'a' :: 'l' :: 's' :: 'e' :: rest => some (.boolean false, rest)
  | _ =>
    if looksLikeDate s then (date? s).map fun rest => (.date (size - bytes s), rest) else number? s

end Standin.Toml
