import Standin.Decimal.Binary

/-!
# Shortest decimal digits

A binary number is written with the fewest decimal digits that round back to it. For 1, 2, … digits
the two neighbours of the number on that decimal grid are tried (`Format.shortest`); of two that
both round back the nearer is taken, and a `Tie` says which one when they are equally near.
-/

namespace Standin

/-- Which of two equally near decimals is taken. -/
inductive Tie
  | even
  | up
deriving DecidableEq, Repr

/-- The number `0.d₁d₂… · 10 ^ point`, with the digits read as one natural. -/
structure Digits where
  digits : Nat
  point : Int
deriving DecidableEq, Repr

/-- The reals that round to one binary number, scaled to naturals over one denominator: `low` and
`high` are its ends, `value` is the number. -/
structure Interval where
  low : Nat
  value : Nat
  high : Nat
  scale : Nat
  closed : Bool

namespace Interval

/-- The interval of the magnitude `bits`. The gap below a power of two is half as wide as the gap
above it. -/
def ofBits (f : Format) (bits : Nat) : Interval :=
  let x := f.toDyadic bits
  let below :=
    if x.digits = Nat.pow 2 f.fractionBits && decide (f.leastPlace < x.place) then 1 else 2
  let unit := Dyadic.ratio ⟨1, x.place⟩
  { low := (4 * x.digits - below) * unit.1
    value := 4 * x.digits * unit.1
    high := (4 * x.digits + 2) * unit.1
    scale := 4 * unit.2
    closed := x.digits % 2 == 0 }

/-- Whether `num / den` lies in the interval. -/
def contains (i : Interval) (num den : Nat) : Bool :=
  let x := num * i.scale
  let lo := i.low * den
  let hi := i.high * den
  if i.closed then decide (lo ≤ x) && decide (x ≤ hi) else decide (lo < x) && decide (x < hi)

end Interval

/-- `n · 10 ^ e` as a quotient of naturals. -/
def tenfold (n : Nat) (e : Int) : Nat × Nat :=
  if 0 ≤ e then (n * Nat.pow 10 e.toNat, 1) else (n, Nat.pow 10 (-e).toNat)

/-- The place of the decimal point of `num / den`: the least `k` with `num / den < 10 ^ k`, looked
for upwards from `k`. -/
def pointFrom (num den : Nat) : Nat → Int → Int
  | 0, k => k
  | fuel + 1, k =>
    let p := tenfold 1 k
    if num * p.2 < p.1 * den then k else pointFrom num den fuel (k + 1)

/-- An estimate from the binary logarithms that is at most two too small. -/
def pointOf (num den : Nat) : Int :=
  let bits : Int := (num.log2 : Int) - den.log2 - 1
  pointFrom num den 4 (Int.fdiv (bits * 30103) 100000)

/-- The neighbours of the value with `count` digits, cut off and one unit more, if they round back.
-/
def candidate (tie : Tie) (i : Interval) (point : Int) (count : Nat) : Option Nat :=
  let grid := tenfold 1 (point - count)
  let down := i.value * grid.2 / (i.scale * grid.1)
  let up := down + 1
  let downIn := down ≠ 0 && i.contains (down * grid.1) grid.2
  let upIn := i.contains (up * grid.1) grid.2
  if downIn && upIn then
    let twice := 2 * i.value * grid.2
    let middle := (down + up) * (i.scale * grid.1)
    if twice < middle then some down
    else if middle < twice then some up
    else match tie with
      | .up => some up
      | .even => some (if down % 2 = 0 then down else up)
  else if downIn then some down
  else if upIn then some up
  else none

/-- The first candidate with `count`, `count + 1`, … digits; `none` after `fuel` tries. -/
def searchFrom (tie : Tie) (i : Interval) (point : Int) : Nat → Nat → Option (Nat × Nat)
  | 0, _ => none
  | fuel + 1, count =>
    match candidate tie i point count with
    | some digits => some (digits, count)
    | none => searchFrom tie i point fuel (count + 1)

/-- A natural without the zeros at the end of its decimal digits. -/
def stripZeros : Nat → Nat → Nat
  | 0, n => n
  | fuel + 1, n => if n ≠ 0 && n % 10 == 0 then stripZeros fuel (n / 10) else n

/-- The shortest digits that round back to the finite magnitude `bits`, which is not zero. -/
def Format.shortest (f : Format) (tie : Tie) (bits : Nat) : Digits :=
  let i := Interval.ofBits f bits
  let point := pointOf i.value i.scale
  match searchFrom tie i point 17 1 with
  | some (digits, count) =>
    ⟨stripZeros count digits, if digits = Nat.pow 10 count then point + 1 else point⟩
  | none => ⟨0, 0⟩

end Standin
