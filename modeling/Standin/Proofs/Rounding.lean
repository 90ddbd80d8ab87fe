import Mathlib.Algebra.Order.Field.Power
import Mathlib.Tactic.FieldSimp
import Mathlib.Tactic.Linarith
import Mathlib.Tactic.NormNum
import Mathlib.Tactic.Positivity
import Mathlib.Tactic.Ring
import Standin.Decimal.Binary

/-!
# Rounding keeps order

A magnitude stands for a rational number (`Format.value`), and `Format.nearest` takes a greater
quotient to a greater pattern or to the same (`nearest_mono`), whatever the numerators and
denominators are. So a product is bounded by the product of bounds (`mul_mono`), which can be
computed.
-/

namespace Standin

/-! ## Values -/

theorem zpow_of_nonneg (b : ℚ) {e : ℤ} (h : 0 ≤ e) : b ^ e = b ^ e.toNat := by
  rw [← zpow_natCast, Int.toNat_of_nonneg h]

theorem zpow_of_neg (b : ℚ) {e : ℤ} (h : ¬0 ≤ e) : b ^ e = (b ^ (-e).toNat)⁻¹ := by
  rw [← zpow_natCast, Int.toNat_of_nonneg (by omega), zpow_neg, inv_inv]

namespace Dyadic

/-- The number that is meant. -/
def value (x : Dyadic) : ℚ :=
  x.digits * 2 ^ x.place

theorem value_mul (x y : Dyadic) : (x.mul y).value = x.value * y.value := by
  simp only [value, mul, Nat.cast_mul, zpow_add₀ (two_ne_zero' ℚ)]
  ring

theorem ratio_pos (x : Dyadic) : 0 < x.ratio.2 := by
  unfold ratio
  split
  · exact Nat.one_pos
  · exact Nat.pow_pos two_pos

theorem ratio_eq (x : Dyadic) : (x.ratio.1 : ℚ) / x.ratio.2 = x.value := by
  unfold ratio value
  split
  · next h => simp [zpow_of_nonneg 2 h]
  · next h => simp [zpow_of_neg 2 h, div_eq_mul_inv]

end Dyadic

/-! ## Rounding to a natural -/

/-- The natural is no further than a half from the quotient, and even if it is a half away. -/
structure IsRounding (q : ℚ) (n : ℕ) : Prop where
  lower : (n : ℚ) - 1 / 2 ≤ q
  upper : q ≤ n + 1 / 2
  even_lower : q = n - 1 / 2 → n % 2 = 0
  even_upper : q = n + 1 / 2 → n % 2 = 0

theorem IsRounding.mono {q q' : ℚ} {n n' : ℕ} (h : IsRounding q n) (h' : IsRounding q' n')
    (hq : q ≤ q') : n ≤ n' := by
  by_contra hlt
  have hlt : (n' : ℚ) + 1 ≤ n := by exact_mod_cast Nat.lt_of_not_le hlt
  -- Both are then a half away, on either side of a place in the middle of two neighbours.
  have hn : (n : ℚ) = n' + 1 := by linarith [h.lower, h'.upper]
  have heven := h.even_lower (by linarith [h.lower, h'.upper])
  have heven' := h'.even_upper (by linarith [h.lower, h'.upper])
  have hn : n = n' + 1 := by exact_mod_cast hn
  omega

theorem isRounding_natCast (n : ℕ) : IsRounding n n where
  lower := by linarith
  upper := by linarith
  even_lower h := by linarith
  even_upper h := by linarith

theorem isRounding_roundHalfEven (num : ℕ) {den : ℕ} (hd : 0 < den) :
    IsRounding ((num : ℚ) / den) (roundHalfEven num den) := by
  have hden : (0 : ℚ) < den := by exact_mod_cast hd
  -- The quotient is a natural and a rest below one; the cases compare the rest with a half.
  obtain ⟨x, hx⟩ : ∃ x : ℚ, x = ((num % den : ℕ) : ℚ) / den := ⟨_, rfl⟩
  have hq : (num : ℚ) / den = (num / den : ℕ) + x := by
    have hnum : (num : ℚ) = (num / den : ℕ) * den + (num % den : ℕ) := by
      exact_mod_cast (Nat.div_add_mod' num den).symm
    rw [hx, eq_comm, eq_div_iff hden.ne', add_mul, div_mul_cancel₀ _ hden.ne', ← hnum]
  have hx0 : 0 ≤ x := hx ▸ by positivity
  have hx1 : x < 1 := by
    rw [hx, div_lt_one hden]
    exact_mod_cast Nat.mod_lt num hd
  have hlt : 2 * (num % den) < den ↔ x < 1 / 2 := by
    rw [hx, div_lt_iff₀ hden, ← Nat.cast_lt (α := ℚ)]
    push_cast
    constructor <;> intro h <;> linarith
  have hgt : den < 2 * (num % den) ↔ 1 / 2 < x := by
    rw [hx, lt_div_iff₀ hden, ← Nat.cast_lt (α := ℚ)]
    push_cast
    constructor <;> intro h <;> linarith
  simp only [roundHalfEven, hlt, hgt, hq]
  split_ifs with h h' heven
  · exact ⟨by linarith, by linarith, fun _ => by linarith, fun _ => by linarith⟩
  · exact ⟨by push_cast; linarith, by push_cast; linarith,
      fun e => by push_cast at e; linarith, fun e => by push_cast at e; linarith⟩
  · exact ⟨by linarith, by linarith, fun _ => heven, fun _ => heven⟩
  · have hodd : (num / den + 1) % 2 = 0 := by omega
    exact ⟨by push_cast; linarith, by push_cast; linarith, fun _ => hodd, fun _ => hodd⟩

/-! ## Rounding into a format -/

namespace Format

variable (f : Format)

/-- What `nearest` makes of a quotient that is not zero: a place where the quotient has no more
digits than a fraction with its leading one, and has that leading one unless the place is the
least; and the quotient rounded at that place. -/
structure RoundsAt (q : ℚ) (place : ℤ) (digits : ℕ) : Prop where
  least_le : f.leastPlace ≤ place
  lt : q < 2 ^ (place + f.fractionBits + 1)
  full : f.leastPlace < place → 2 ^ (place + f.fractionBits) ≤ q
  rounding : IsRounding (q / 2 ^ place) digits

namespace RoundsAt

variable {f} {q q' : ℚ} {place place' : ℤ} {digits digits' : ℕ}

theorem place_mono (h : f.RoundsAt q place digits) (h' : f.RoundsAt q' place' digits')
    (hq : q ≤ q') : place ≤ place' := by
  by_contra hlt
  have hpow : (2 : ℚ) ^ (place' + f.fractionBits + 1) ≤ 2 ^ (place + f.fractionBits) :=
    zpow_le_zpow_right₀ one_le_two (by omega)
  have hfull := h.full (by have := h'.least_le; omega)
  linarith [h'.lt]

theorem digits_le (h : f.RoundsAt q place digits) : digits ≤ 2 * 2 ^ f.fractionBits := by
  refine h.rounding.mono (isRounding_natCast _) ?_
  have hlt := h.lt
  rw [add_assoc, zpow_add₀ two_ne_zero, ← div_lt_iff₀' (by positivity)] at hlt
  refine hlt.le.trans_eq ?_
  rw [zpow_add_one₀ two_ne_zero, mul_comm]
  norm_cast

theorem le_digits (h : f.RoundsAt q place digits) (hp : f.leastPlace < place) :
    2 ^ f.fractionBits ≤ digits := by
  refine (isRounding_natCast _).mono h.rounding ?_
  have hfull := h.full hp
  rw [zpow_add₀ two_ne_zero, ← le_div_iff₀' (by positivity)] at hfull
  exact_mod_cast hfull

/-- A full place more outweighs all digits. -/
theorem pattern_mono (h : f.RoundsAt q place digits) (h' : f.RoundsAt q' place' digits')
    (hq : q ≤ q') :
    (place - f.leastPlace).toNat * 2 ^ f.fractionBits + digits ≤
      (place' - f.leastPlace).toNat * 2 ^ f.fractionBits + digits' := by
  have hleast := h.least_le
  obtain rfl | hlt := (h.place_mono h' hq).eq_or_lt
  · have hdigits : digits ≤ digits' :=
      h.rounding.mono h'.rounding (div_le_div_of_nonneg_right hq (by positivity))
    omega
  · obtain ⟨k, hk⟩ : ∃ k, (place' - f.leastPlace).toNat = (place - f.leastPlace).toNat + 1 + k :=
      ⟨(place' - place - 1).toNat, by omega⟩
    have hup := h.digits_le
    have hdown := h'.le_digits (by omega)
    rw [hk, add_mul, add_mul, one_mul]
    omega

end RoundsAt

/-- The scaled numerator and denominator stand for the quotient at a place. -/
theorem ratio_div (num den : ℕ) (p : ℤ) :
    (((Dyadic.ratio ⟨num, -p⟩).1 : ℕ) : ℚ) / ((Dyadic.ratio ⟨num, -p⟩).2 * den : ℕ) =
      num / den / 2 ^ p := by
  push_cast
  rw [← div_div, Dyadic.ratio_eq, Dyadic.value, zpow_neg, ← div_eq_mul_inv, div_right_comm]

theorem div_lt_two_zpow (num : ℕ) {den : ℕ} (hd : 0 < den) :
    (num : ℚ) / den < 2 ^ ((num.log2 : ℤ) - den.log2 + 1) := by
  have hnum : (num : ℚ) < 2 ^ (num.log2 + 1) := by exact_mod_cast Nat.lt_log2_self
  have hden : (2 : ℚ) ^ den.log2 ≤ den := by exact_mod_cast Nat.log2_self_le hd.ne'
  rw [div_lt_iff₀ (by exact_mod_cast hd)]
  calc (num : ℚ) < 2 ^ (num.log2 + 1) := hnum
    _ = 2 ^ ((num.log2 : ℤ) - den.log2 + 1) * 2 ^ den.log2 := by
      rw [← zpow_natCast, ← zpow_natCast, ← zpow_add₀ two_ne_zero]
      congr 1
      push_cast
      ring
    _ ≤ _ := mul_le_mul_of_nonneg_left hden (by positivity)

theorem two_zpow_lt_div {num den : ℕ} (hn : num ≠ 0) (hd : 0 < den) :
    (2 : ℚ) ^ ((num.log2 : ℤ) - den.log2 - 1) < num / den := by
  have hnum : (2 : ℚ) ^ num.log2 ≤ num := by exact_mod_cast Nat.log2_self_le hn
  have hden : (den : ℚ) < 2 ^ (den.log2 + 1) := by exact_mod_cast Nat.lt_log2_self
  rw [lt_div_iff₀ (by exact_mod_cast hd)]
  calc (2 : ℚ) ^ ((num.log2 : ℤ) - den.log2 - 1) * den
      < 2 ^ ((num.log2 : ℤ) - den.log2 - 1) * 2 ^ (den.log2 + 1) :=
        mul_lt_mul_of_pos_left hden (by positivity)
    _ = 2 ^ num.log2 := by
      rw [← zpow_natCast, ← zpow_natCast, ← zpow_add₀ two_ne_zero]
      congr 1
      push_cast
      ring
    _ ≤ num := hnum

/-- The digits that `nearest` has for a quotient. -/
def nearestDigits (num den : ℕ) : ℕ :=
  let scaled := Dyadic.ratio ⟨num, -f.placeOf num den⟩
  roundHalfEven scaled.1 (scaled.2 * den)

/-- The estimate from the binary logarithms is one too large or right. -/
theorem placeOf_spec {num den : ℕ} (hn : num ≠ 0) (hd : 0 < den) :
    ∃ p : ℤ, f.placeOf num den = max f.leastPlace p ∧
      (2 : ℚ) ^ (p + f.fractionBits) ≤ num / den ∧
      (num : ℚ) / den < 2 ^ (p + f.fractionBits + 1) := by
  obtain ⟨guess, hguess⟩ : ∃ g : ℤ, g = (num.log2 : ℤ) - den.log2 - f.fractionBits := ⟨_, rfl⟩
  have hlow := two_zpow_lt_div hn hd
  have hhigh := div_lt_two_zpow num hd
  have hpos : (0 : ℚ) < ((Dyadic.ratio ⟨num, -guess⟩).2 * den : ℕ) := by
    exact_mod_cast Nat.mul_pos (Dyadic.ratio_pos _) hd
  have hcompare : (Dyadic.ratio ⟨num, -guess⟩).1 <
      Nat.pow 2 f.fractionBits * ((Dyadic.ratio ⟨num, -guess⟩).2 * den) ↔
        (num : ℚ) / den < 2 ^ (guess + f.fractionBits) := by
    rw [zpow_add₀ two_ne_zero, ← div_lt_iff₀' (by positivity), ← ratio_div, div_lt_iff₀ hpos]
    norm_cast
  simp only [placeOf, ← hguess, hcompare]
  refine ⟨_, rfl, ?_⟩
  split_ifs with h
  · refine ⟨?_, ?_⟩
    · rw [show guess - 1 + f.fractionBits = (num.log2 : ℤ) - den.log2 - 1 by omega]
      exact hlow.le
    · rwa [show guess - 1 + f.fractionBits + 1 = guess + f.fractionBits by omega]
  · refine ⟨not_lt.1 h, ?_⟩
    rwa [show guess + f.fractionBits + 1 = (num.log2 : ℤ) - den.log2 + 1 by omega]

theorem roundsAt {num den : ℕ} (hn : num ≠ 0) (hd : 0 < den) :
    f.RoundsAt (num / den) (f.placeOf num den) (f.nearestDigits num den) := by
  obtain ⟨p, hp, hlow, hhigh⟩ := f.placeOf_spec hn hd
  refine ⟨by omega, ?_, ?_, ?_⟩
  · exact hhigh.trans_le (zpow_le_zpow_right₀ one_le_two (by omega))
  · intro hlt
    rwa [show f.placeOf num den = p by omega]
  · rw [← ratio_div]
    exact isRounding_roundHalfEven _ (Nat.mul_pos (Dyadic.ratio_pos _) hd)

/-- A greater quotient has a greater pattern or the same one. -/
theorem nearest_mono {num den num' den' : ℕ} (hd : 0 < den) (hd' : 0 < den')
    (h : (num : ℚ) / den ≤ num' / den') : f.nearest num den ≤ f.nearest num' den' := by
  unfold nearest
  split_ifs with hn hn' hn'
  · exact le_rfl
  · exact Nat.zero_le _
  · have hden : (0 : ℚ) < den := by exact_mod_cast hd
    have hnum : (num : ℚ) ≤ 0 := by simpa [hn', div_le_iff₀ hden] using h
    exact absurd (Nat.le_zero.1 (by exact_mod_cast hnum)) hn
  · exact min_le_min_left _ ((f.roundsAt hn hd).pattern_mono (f.roundsAt hn' hd') h)

/-! ## Products and quotients -/

/-- The number that a finite magnitude stands for. -/
def value (bits : ℕ) : ℚ :=
  (f.toDyadic bits).value

theorem value_lt (bits : ℕ) :
    f.value bits < 2 ^ (f.leastPlace + f.fractionBits + (bits / 2 ^ f.fractionBits : ℕ)) := by
  have hfraction : ((bits % 2 ^ f.fractionBits : ℕ) : ℚ) < 2 ^ f.fractionBits := by
    exact_mod_cast Nat.mod_lt bits (Nat.pow_pos two_pos)
  simp only [value, toDyadic, Nat.pow_eq]
  split_ifs with h
  · rw [h, Nat.cast_zero, add_zero, add_comm, zpow_add₀ two_ne_zero, zpow_natCast]
    exact mul_lt_mul_of_pos_right hfraction (by positivity)
  · obtain ⟨e, he⟩ := Nat.exists_eq_succ_of_ne_zero h
    rw [he, show f.leastPlace + f.fractionBits + (e.succ : ℕ) =
      (f.fractionBits + 1 : ℕ) + (f.leastPlace + e) by push_cast; ring, zpow_add₀ two_ne_zero,
      zpow_natCast, Dyadic.value]
    refine mul_lt_mul_of_pos_right ?_ (by positivity)
    push_cast
    rw [pow_succ]
    linarith

theorem le_value {bits : ℕ} (h : bits / 2 ^ f.fractionBits ≠ 0) :
    2 ^ (f.leastPlace + f.fractionBits + (bits / 2 ^ f.fractionBits - 1 : ℕ)) ≤ f.value bits := by
  simp only [value, toDyadic, Nat.pow_eq, if_neg h, Dyadic.value]
  rw [add_right_comm, zpow_add₀ two_ne_zero, mul_comm, zpow_natCast]
  refine mul_le_mul_of_nonneg_right ?_ (by positivity)
  push_cast
  linarith [(Nat.cast_nonneg (bits % 2 ^ f.fractionBits) : (0 : ℚ) ≤ _)]

theorem value_mono {x y : ℕ} (h : x ≤ y) : f.value x ≤ f.value y := by
  have hexp : x / 2 ^ f.fractionBits ≤ y / 2 ^ f.fractionBits := Nat.div_le_div_right h
  obtain heq | hlt := hexp.eq_or_lt
  · have hdigits : x % 2 ^ f.fractionBits ≤ y % 2 ^ f.fractionBits := by
      have hx := Nat.div_add_mod x (2 ^ f.fractionBits)
      have hy := Nat.div_add_mod y (2 ^ f.fractionBits)
      rw [heq] at hx
      omega
    simp only [value, toDyadic, Nat.pow_eq, heq]
    split_ifs
    · exact mul_le_mul_of_nonneg_right (by exact_mod_cast hdigits) (by positivity)
    · exact mul_le_mul_of_nonneg_right (by exact_mod_cast Nat.add_le_add_left hdigits _)
        (by positivity)
  · calc f.value x ≤ _ := (f.value_lt x).le
      _ ≤ 2 ^ (f.leastPlace + f.fractionBits + (y / 2 ^ f.fractionBits - 1 : ℕ)) := by
        gcongr
        · exact one_le_two
        · exact Nat.le_sub_one_of_lt hlt
      _ ≤ f.value y := f.le_value (Nat.ne_zero_of_lt hlt)

theorem value_nonneg (x : ℕ) : 0 ≤ f.value x := by
  unfold value Dyadic.value
  positivity

/-- The pattern of the magnitude nearest to a number that is given by its parts. -/
theorem nearest_ratio_mono {x y : Dyadic} (h : x.value ≤ y.value) :
    f.nearest x.ratio.1 x.ratio.2 ≤ f.nearest y.ratio.1 y.ratio.2 := by
  refine f.nearest_mono x.ratio_pos y.ratio_pos ?_
  rwa [x.ratio_eq, y.ratio_eq]

theorem mul_mono {x x' y y' : ℕ} (hx : x ≤ x') (hy : y ≤ y') : f.mul x y ≤ f.mul x' y' := by
  refine f.nearest_ratio_mono ?_
  rw [Dyadic.value_mul, Dyadic.value_mul]
  exact mul_le_mul (f.value_mono hx) (f.value_mono hy) (f.value_nonneg y) (f.value_nonneg x')

/-- A quotient by one or more is no greater than the number itself. -/
theorem div_le {x y : ℕ} (hy : 1 ≤ f.value y) :
    f.div x y ≤ f.nearest (f.toDyadic x).ratio.1 (f.toDyadic x).ratio.2 := by
  have hdigits : 0 < (f.toDyadic y).digits := by
    by_contra h
    have hzero : f.value y = 0 := by simp [value, Dyadic.value, Nat.eq_zero_of_not_pos h]
    linarith
  refine f.nearest_mono (Nat.mul_pos (Dyadic.ratio_pos _) hdigits) (Dyadic.ratio_pos _) ?_
  have hvalue : f.value x / f.value y ≤ f.value x := div_le_self (f.value_nonneg x) hy
  rw [Dyadic.ratio_eq]
  push_cast
  rw [← div_div, Dyadic.ratio_eq]
  refine le_of_eq_of_le ?_ hvalue
  simp only [value, Dyadic.value]
  rw [zpow_sub₀ two_ne_zero]
  field_simp

end Format

end Standin
