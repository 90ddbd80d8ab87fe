/-!
# Binary floating-point numbers

The two interchange formats that bodies hold constants of, as bit patterns. `Format.nearest` rounds
a quotient of naturals into a format, a tie to the even neighbour; products, quotients and changes
of format are exact operations on the parts followed by that one rounding.
-/

namespace Standin

/-- How a binary interchange format divides its bits: a sign, an exponent, a fraction. -/
structure Format where
  fractionBits : Nat
  exponentBits : Nat

namespace Format

/-- The 32-bit format. -/
def single : Format := ⟨23, 8⟩

/-- The 64-bit format. -/
def double : Format := ⟨52, 11⟩

/-- The exponent of the last place of the smallest numbers. -/
def leastPlace (f : Format) : Int :=
  2 - Nat.pow 2 (f.exponentBits - 1) - f.fractionBits

/-- The pattern of positive infinity; finite magnitudes have smaller patterns. -/
def infinity (f : Format) : Nat :=
  (Nat.pow 2 f.exponentBits - 1) * Nat.pow 2 f.fractionBits

/-- The bit that carries the sign. -/
def signBit (f : Format) : Nat :=
  Nat.pow 2 (f.exponentBits + f.fractionBits)

end Format

/-- The number `digits · 2 ^ place`. -/
structure Dyadic where
  digits : Nat
  place : Int
deriving DecidableEq, Repr

namespace Dyadic

def mul (x y : Dyadic) : Dyadic :=
  ⟨x.digits * y.digits, x.place + y.place⟩

/-- A numerator and a denominator of the number. -/
def ratio (x : Dyadic) : Nat × Nat :=
  if 0 ≤ x.place then (x.digits * Nat.pow 2 x.place.toNat, 1)
  else (x.digits, Nat.pow 2 (-x.place).toNat)

end Dyadic

/-- The natural nearest to `num / den`, the even one of two. -/
def roundHalfEven (num den : Nat) : Nat :=
  let q := num / den
  let r := num % den
  if 2 * r < den then q
  else if den < 2 * r then q + 1
  else if q % 2 = 0 then q else q + 1

namespace Format

/-- The place to which a quotient is rounded: the one that leaves a full fraction, but never below
the least place of the format. -/
def placeOf (f : Format) (num den : Nat) : Int :=
  let guess : Int := (num.log2 : Int) - den.log2 - f.fractionBits
  let scaled := Dyadic.ratio ⟨num, -guess⟩
  let exact := if scaled.1 < Nat.pow 2 f.fractionBits * (scaled.2 * den) then guess - 1 else guess
  max f.leastPlace exact

/-- The pattern of the nonnegative number nearest to `num / den`, the even one of two; what is too
large for the format is infinite. -/
def nearest (f : Format) (num den : Nat) : Nat :=
  if num = 0 then 0
  else
    let place := f.placeOf num den
    let scaled := Dyadic.ratio ⟨num, -place⟩
    let digits := roundHalfEven scaled.1 (scaled.2 * den)
    min f.infinity ((place - f.leastPlace).toNat * Nat.pow 2 f.fractionBits + digits)

/-- The pattern of a magnitude without its sign bit. -/
def magnitude (f : Format) (bits : Nat) : Nat :=
  bits % f.signBit

/-- The number that a finite magnitude stands for. -/
def toDyadic (f : Format) (bits : Nat) : Dyadic :=
  let exponent := bits / Nat.pow 2 f.fractionBits
  let fraction := bits % Nat.pow 2 f.fractionBits
  if exponent = 0 then ⟨fraction, f.leastPlace⟩
  else ⟨Nat.pow 2 f.fractionBits + fraction, f.leastPlace + (exponent - 1 : Nat)⟩

/-- The product of two finite magnitudes. -/
def mul (f : Format) (x y : Nat) : Nat :=
  let p := (Dyadic.mul (f.toDyadic x) (f.toDyadic y)).ratio
  f.nearest p.1 p.2

/-- The quotient of two finite magnitudes, the second not zero. -/
def div (f : Format) (x y : Nat) : Nat :=
  let a := f.toDyadic x
  let b := f.toDyadic y
  let p := Dyadic.ratio ⟨a.digits, a.place - b.place⟩
  f.nearest p.1 (p.2 * b.digits)

/-- The magnitude of `g` nearest to a magnitude of `f`. -/
def convert (f g : Format) (x : Nat) : Nat :=
  if x < f.infinity then
    let p := (f.toDyadic x).ratio
    g.nearest p.1 p.2
  else g.infinity

end Format

/-- A 32-bit floating-point number. -/
structure Binary32 where
  bits : UInt32
deriving DecidableEq, Repr

/-- A 64-bit floating-point number. -/
structure Binary64 where
  bits : UInt64
deriving DecidableEq, Repr

/-- A magnitude pattern with a sign. -/
def Binary32.ofMagnitude (negative : Bool) (m : Nat) : Binary32 :=
  ⟨.ofNat (if negative then m + Format.single.signBit else m)⟩

/-- A magnitude pattern with a sign. -/
def Binary64.ofMagnitude (negative : Bool) (m : Nat) : Binary64 :=
  ⟨.ofNat (if negative then m + Format.double.signBit else m)⟩

/-- The number one. -/
def Binary32.one : Binary32 := ⟨0x3f800000⟩

/-- The number one. -/
def Binary64.one : Binary64 := ⟨0x3ff0000000000000⟩

end Standin
