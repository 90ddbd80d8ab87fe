import Standin.Decimal.Shortest

/-!
# Writing binary numbers in decimal

Digits are laid out in positional notation while the decimal point stays within given bounds, and
with a power of ten outside them. A `Layout` holds these bounds and the other choices.
-/

namespace Standin

/-- The choices in the decimal text of a number. -/
structure Layout where
  /-- Positional notation is used while the point lies above this place … -/
  above : Int
  /-- … and not above this one. -/
  upTo : Int
  /-- Whether a power of ten that is not negative has a plus sign. -/
  plus : Bool
  tie : Tie

/-- The parts of a written decimal; `fraction` may be empty, `exponent` is absent in positional
notation. -/
structure Written where
  whole : List Char
  fraction : List Char
  exponent : Option Int

/-- Positional notation has at least one digit on both sides of the point. -/
def Digits.positional (d : Digits) : Written :=
  let cs := Nat.toDigits 10 d.digits
  if d.point ≤ 0 then ⟨['0'], List.replicate (-d.point).toNat '0' ++ cs, none⟩
  else
    let k := d.point.toNat
    if k < cs.length then ⟨cs.take k, cs.drop k, none⟩
    else ⟨cs ++ List.replicate (k - cs.length) '0', ['0'], none⟩

/-- One digit before the point, which is left out when no digit follows it. -/
def Digits.scientific (d : Digits) : Written :=
  let cs := Nat.toDigits 10 d.digits
  ⟨cs.take 1, cs.drop 1, some (d.point - 1)⟩

/-- The layout of a finite magnitude. -/
def Layout.write (l : Layout) (f : Format) (bits : Nat) : Written :=
  if bits = 0 then ⟨['0'], ['0'], none⟩
  else
    let d := f.shortest l.tie bits
    if l.above < d.point && d.point ≤ l.upTo then d.positional else d.scientific

/-- The text of an exponent after its mark. -/
def exponentText (plus : Bool) (e : Int) : String :=
  if e < 0 then "-" ++ (-e).toNat.repr
  else if plus then "+" ++ e.toNat.repr
  else e.toNat.repr

def Written.text (plus : Bool) (w : Written) : String :=
  String.ofList w.whole ++
    (if w.fraction.isEmpty then "" else "." ++ String.ofList w.fraction) ++
    match w.exponent with
    | none => ""
    | some e => "e" ++ exponentText plus e

/-- The text of a number of format `f` with the pattern `bits`. -/
def Layout.text (l : Layout) (f : Format) (bits : Nat) : String :=
  let m := f.magnitude bits
  let sign := if m < bits then "-" else ""
  if m < f.infinity then sign ++ (l.write f m).text l.plus
  else if m = f.infinity then sign ++ "inf"
  else "NaN"

end Standin
