import Standin.Decimal.Layout

/-!
# JSON values

A value keeps what its text tells apart: integers from other numbers, and the members of an object
in their order with repetitions. Numbers that are not integers keep their decimal digits;
`Json.double?` and `Json.single?` round them to a binary format.
-/

namespace Standin

/-- A number with a fraction or a power of ten, or `-0`. The digits are decimal; an empty fraction
is not written. -/
structure Numeral where
  negative : Bool
  whole : List Char
  fraction : List Char
  exponent : Option Int
deriving DecidableEq, Repr

inductive Json
  | null
  | bool (b : Bool)
  | int (n : Int)
  | number (n : Numeral)
  | string (s : String)
  | array (items : List Json)
  | object (members : List (String × Json))
  /-- A string with an unpaired surrogate, or an object with such a key. It denotes nothing, so it
  can stand only where a value is skipped. -/
  | unreadable
deriving Inhabited

namespace Numeral

/-- A decimal digit that follows `m`, as long as the result has at most 64 bits: the number read,
and how many digits it has. -/
def leading (m : Nat) : List Char → Nat × Nat
  | [] => (m, 0)
  | c :: cs =>
    let next := m * 10 + (c.toNat - '0'.toNat)
    if next < UInt64.size then
      let (value, count) := leading next cs
      (value, count + 1)
    else (m, 0)

/-- A power of ten in the 64-bit format. -/
def powerOfTen (k : Nat) : Nat :=
  Format.double.nearest (Nat.pow 10 k) 1

/-- The largest power of ten in the 64-bit format. -/
def mostTens : Nat := 308

/-- A magnitude of the 64-bit format times a power of ten, with one rounding for each factor or
divisor; `none` if it is too large. -/
def scale (m : Nat) (e : Int) : Option Nat :=
  if 0 ≤ e then
    if e ≤ mostTens then
      let product := Format.double.mul m (powerOfTen e.toNat)
      if product < Format.double.infinity then some product else none
    else if m = 0 then some 0 else none
  else if -e ≤ mostTens then some (Format.double.div m (powerOfTen (-e).toNat))
  else if m = 0 then some 0
  else scale (Format.double.div m (powerOfTen mostTens)) (e + mostTens)
termination_by (-e).toNat
decreasing_by simp only [mostTens] at *; omega

/-- The magnitude of the number in the 64-bit format. The digits that fit in 64 bits are rounded
first, then scaled; digits after those count only by their places. -/
def magnitude? (n : Numeral) : Option Nat :=
  let (whole, used) := leading 0 n.whole
  let (digits, places) := leading whole n.fraction
  let skipped : Int := (n.whole.length - used : Nat)
  scale (Format.double.nearest digits 1) (skipped - places + n.exponent.getD 0)

/-- An integer as a numeral. -/
def ofInt (n : Int) : Numeral :=
  ⟨n < 0, Nat.toDigits 10 n.natAbs, [], none⟩

end Numeral

namespace Json

/-- The 64-bit number that a JSON number is read as; one too large for the format is refused. -/
def double? : Json → Option Binary64
  | .int n => (Numeral.ofInt n).magnitude?.map (Binary64.ofMagnitude (n < 0))
  | .number n => n.magnitude?.map (Binary64.ofMagnitude n.negative)
  | _ => none

/-- The 32-bit number that a JSON number is read as. Integers of 64 bits are rounded once, all else
goes through the 64-bit format. -/
def single? : Json → Option Binary32
  | .int n =>
    if -Nat.pow 2 63 ≤ n ∧ n < UInt64.size then
      some (Binary32.ofMagnitude (n < 0) (Format.single.nearest n.natAbs 1))
    else (Numeral.ofInt n).magnitude?.map fun m =>
      Binary32.ofMagnitude (n < 0) (Format.double.convert .single m)
  | .number n => n.magnitude?.map fun m =>
      Binary32.ofMagnitude n.negative (Format.double.convert .single m)
  | _ => none

/-- A number of format `f` in the layout `l`; infinities and what is not a number are `null`. -/
def ofBinary (l : Layout) (f : Format) (bits : Nat) : Json :=
  let m := f.magnitude bits
  if m < f.infinity then
    let w := l.write f m
    .number ⟨m < bits, w.whole, w.fraction, w.exponent⟩
  else .null

/-- 64-bit numbers are positional from `0.00001` to below `10 ^ 16`. -/
def doubleLayout : Layout := ⟨-5, 16, true, .even⟩

/-- 32-bit numbers are positional from `0.000001` to below `10 ^ 13`. -/
def singleLayout : Layout := ⟨-6, 13, true, .even⟩

def ofDouble (x : Binary64) : Json :=
  ofBinary doubleLayout .double x.bits.toNat

def ofSingle (x : Binary32) : Json :=
  ofBinary singleLayout .single x.bits.toNat

end Json

end Standin
