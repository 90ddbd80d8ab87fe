import Standin.Json.Basic
import Standin.Proofs.Rounding

/-!
# Which numbers are read

A numeral is read as a finite magnitude or refused as too large (`magnitude?_lt`). The reader
rounds more than once, so it may refuse what the format could still hold; but it refuses no numeral
up to the midpoint of the two greatest finite magnitudes (`isSome_magnitude?`).
-/

namespace Standin.Numeral

/-! ## Leading digits -/

theorem leading_lt {m : ℕ} (h : m < UInt64.size) (cs : List Char) :
    (leading m cs).1 < UInt64.size := by
  fun_induction leading m cs with
  | case1 m => exact h
  | case2 m c cs next hnext value count hrest ih =>
    rw [hrest] at ih
    exact ih hnext
  | case3 m c cs next hnext => exact h

theorem leading_le (m : ℕ) (cs : List Char) : (leading m cs).2 ≤ cs.length := by
  fun_induction leading m cs with
  | case1 m => exact le_rfl
  | case2 m c cs next hnext value count hrest ih =>
    rw [hrest] at ih
    exact Nat.succ_le_succ ih
  | case3 m c cs next hnext => exact Nat.zero_le _

/-- Digits that are left out only make the number smaller. -/
theorem leading_mul_le (m : ℕ) (cs : List Char) :
    (leading m cs).1 * 10 ^ (cs.length - (leading m cs).2) ≤ Nat.ofDigitChars 10 cs m := by
  fun_induction leading m cs with
  | case1 m => simp
  | case2 m c cs next hnext value count hrest ih =>
    rw [hrest] at ih
    rw [Nat.ofDigitChars_cons, mul_comm 10 m, List.length_cons, Nat.add_sub_add_right]
    exact ih
  | case3 m c cs next hnext =>
    rw [Nat.ofDigitChars_eq_ofDigitChars_zero, Nat.sub_zero, mul_comm]
    exact Nat.le_add_right _ _

theorem leading_eq {m : ℕ} {cs : List Char} (h : Nat.ofDigitChars 10 cs m < UInt64.size) :
    leading m cs = (Nat.ofDigitChars 10 cs m, cs.length) := by
  fun_induction leading m cs with
  | case1 m => simp
  | case2 m c cs next hnext value count hrest ih =>
    rw [Nat.ofDigitChars_cons, mul_comm 10 m] at h ⊢
    have hcs := ih h
    rw [hrest, Prod.mk.injEq] at hcs
    rw [hcs.1, hcs.2, List.length_cons]
  | case3 m c cs next hnext =>
    -- The digits that follow only make the number larger.
    rw [Nat.ofDigitChars_cons, mul_comm 10 m, Nat.ofDigitChars_eq_ofDigitChars_zero] at h
    have hle : next ≤ 10 ^ cs.length * next := Nat.le_mul_of_pos_left next (Nat.pow_pos (by decide))
    exact absurd (hle.trans_lt ((Nat.le_add_right _ _).trans_lt h)) hnext

/-! ## Powers of ten -/

theorem powerOfTen_mono {j k : ℕ} (h : j ≤ k) : powerOfTen j ≤ powerOfTen k := by
  refine Format.double.nearest_mono one_pos one_pos ?_
  simp only [Nat.pow_eq, Nat.cast_one, div_one]
  exact_mod_cast Nat.pow_le_pow_right (by decide) h

theorem one_le_value_powerOfTen (k : ℕ) : 1 ≤ Format.double.value (powerOfTen k) := by
  have hone : Format.double.toDyadic (powerOfTen 0) = ⟨2 ^ 52, -52⟩ := by decide +kernel
  calc (1 : ℚ) = Format.double.value (powerOfTen 0) := by
        rw [Format.value, hone, Dyadic.value]
        norm_num
    _ ≤ _ := Format.double.value_mono (powerOfTen_mono (Nat.zero_le k))

/-- A finite magnitude stays finite when it is divided by a power of ten. -/
theorem div_powerOfTen_lt {m : ℕ} (h : m < Format.double.infinity) (k : ℕ) :
    Format.double.div m (powerOfTen k) < Format.double.infinity := by
  have hgreatest : (Format.double.nearest
      (Format.double.toDyadic (Format.double.infinity - 1)).ratio.1
      (Format.double.toDyadic (Format.double.infinity - 1)).ratio.2) < Format.double.infinity := by
    decide +kernel
  calc Format.double.div m (powerOfTen k)
      ≤ Format.double.nearest (Format.double.toDyadic m).ratio.1
          (Format.double.toDyadic m).ratio.2 :=
        Format.double.div_le (one_le_value_powerOfTen k)
    _ ≤ _ := Format.double.nearest_ratio_mono (Format.double.value_mono (Nat.le_sub_one_of_lt h))
    _ < _ := hgreatest

theorem scale_lt {m r : ℕ} {e : ℤ} (hm : m < Format.double.infinity) (h : scale m e = some r) :
    r < Format.double.infinity := by
  fun_induction scale m e with
  | case1 m e he hmost product hproduct => rwa [← Option.some.inj h]
  | case2 m e he hmost product hproduct => exact absurd h (by simp)
  | case3 e he hmost => rwa [← Option.some.inj h]
  | case4 m e he hmost hzero => exact absurd h (by simp)
  | case5 m e he hmost =>
    rw [← Option.some.inj h]
    exact div_powerOfTen_lt hm _
  | case6 e he hmost => rwa [← Option.some.inj h]
  | case7 m e he hmost hzero ih => exact ih (div_powerOfTen_lt hm _) h

/-! ## What is not too large -/

theorem isSome_scale_of_neg (m : ℕ) {e : ℤ} (he : e < 0) : (scale m e).isSome := by
  fun_induction scale m e with
  | case1 => omega
  | case2 => omega
  | case3 => omega
  | case4 => omega
  | case5 => rfl
  | case6 => rfl
  | case7 m e _ hmost _ ih =>
    refine ih ?_
    simp only [mostTens] at hmost ⊢
    omega

theorem isSome_scale_of_mul_lt {m k : ℕ} (hk : k ≤ mostTens)
    (h : Format.double.mul m (powerOfTen k) < Format.double.infinity) : (scale m k).isSome := by
  rw [scale, if_pos (Int.natCast_nonneg k), if_pos (by exact_mod_cast hk), Int.toNat_natCast,
    if_pos h]
  rfl

/-- The midpoint of the two greatest finite magnitudes of the 64-bit format. -/
def midpoint : ℕ :=
  (2 ^ 54 - 3) * 2 ^ 970

/-- The greatest number up to the midpoint that ends in so many zeros. -/
theorem mul_midpoint_lt {k : ℕ} (hk : 288 < k) (hmost : k ≤ mostTens) :
    Format.double.mul (Format.double.nearest (midpoint / 10 ^ k) 1) (powerOfTen k) <
      Format.double.infinity := by
  have htable : ∀ j < 20,
      Format.double.mul (Format.double.nearest (midpoint / 10 ^ (289 + j)) 1)
        (powerOfTen (289 + j)) < Format.double.infinity := by decide +kernel
  obtain ⟨j, rfl⟩ := Nat.exists_eq_add_of_lt hk
  rw [Nat.add_right_comm]
  exact htable j (by simp only [mostTens] at hmost; omega)

theorem nearest_natCast_mono {m n : ℕ} (h : m ≤ n) :
    Format.double.nearest m 1 ≤ Format.double.nearest n 1 := by
  refine Format.double.nearest_mono one_pos one_pos ?_
  simpa using h

theorem isSome_scale {n : ℕ} {e : ℤ} (hn : n < UInt64.size) (h : (n : ℚ) * 10 ^ e ≤ midpoint) :
    (scale (Format.double.nearest n 1) e).isSome := by
  rcases lt_or_ge e 0 with he | he
  · exact isSome_scale_of_neg _ he
  obtain ⟨k, rfl⟩ := Int.eq_ofNat_of_zero_le he
  have hmul : n * 10 ^ k ≤ midpoint := by exact_mod_cast h
  have hdiv : n ≤ midpoint / 10 ^ k := (Nat.le_div_iff_mul_le (Nat.pow_pos (by decide))).2 hmul
  -- A small power of ten does no harm to 64 bits, a large one leaves no room for them.
  by_cases hsmall : k ≤ 288
  · have hlt : Format.double.mul (Format.double.nearest UInt64.size 1) (powerOfTen 288) <
        Format.double.infinity := by decide +kernel
    refine isSome_scale_of_mul_lt (hsmall.trans (by decide)) (lt_of_le_of_lt ?_ hlt)
    exact Format.double.mul_mono (nearest_natCast_mono hn.le) (powerOfTen_mono hsmall)
  by_cases hmost : k ≤ mostTens
  · refine isSome_scale_of_mul_lt hmost (lt_of_le_of_lt ?_ (mul_midpoint_lt (by omega) hmost))
    exact Format.double.mul_mono (nearest_natCast_mono hdiv) le_rfl
  · have hzero : midpoint / 10 ^ k = 0 := by
      have hpow : 10 ^ (mostTens + 1) ≤ 10 ^ k := Nat.pow_le_pow_right (by decide) (not_le.1 hmost)
      exact Nat.div_eq_of_lt (lt_of_lt_of_le (by decide +kernel) hpow)
    obtain rfl : n = 0 := by omega
    rw [scale, if_pos he, if_neg (by exact_mod_cast hmost)]
    rfl

/-! ## Numerals -/

/-- The number that is meant. -/
def value (n : Numeral) : ℚ :=
  Nat.ofDigitChars 10 (n.whole ++ n.fraction) 0 * 10 ^ (n.exponent.getD 0 - n.fraction.length)

/-- A number that is read is finite. -/
theorem magnitude?_lt {n : Numeral} {m : ℕ} (h : n.magnitude? = some m) :
    m < Format.double.infinity := by
  have hfinite : Format.double.nearest UInt64.size 1 < Format.double.infinity := by decide +kernel
  refine scale_lt (lt_of_le_of_lt (nearest_natCast_mono ?_) hfinite) h
  exact (leading_lt (leading_lt (by decide) _) _).le

/-- The digits that are read and their places never exceed what all digits say. -/
theorem leading_value_le (m : ℕ) (cs : List Char) (e : ℤ) :
    ((leading m cs).1 : ℚ) * 10 ^ (-((leading m cs).2 : ℤ) + e) ≤
      Nat.ofDigitChars 10 cs m * 10 ^ (e - cs.length) := by
  have hcount := leading_le m cs
  have hle : (((leading m cs).1 : ℚ) * 10 ^ (cs.length - (leading m cs).2)) ≤
      Nat.ofDigitChars 10 cs m := by exact_mod_cast leading_mul_le m cs
  calc ((leading m cs).1 : ℚ) * 10 ^ (-((leading m cs).2 : ℤ) + e)
      = (leading m cs).1 * 10 ^ (cs.length - (leading m cs).2) * 10 ^ (e - cs.length) := by
        rw [mul_assoc, ← zpow_natCast, ← zpow_add₀ (by norm_num)]
        congr 2
        omega
    _ ≤ _ := mul_le_mul_of_nonneg_right hle (by positivity)

theorem ofDigitChars_whole_lt {n : Numeral}
    (h : Nat.ofDigitChars 10 (n.whole ++ n.fraction) 0 < UInt64.size) :
    Nat.ofDigitChars 10 n.whole 0 < UInt64.size := by
  rw [Nat.ofDigitChars_append, Nat.ofDigitChars_eq_ofDigitChars_zero] at h
  have hle := Nat.le_mul_of_pos_left (Nat.ofDigitChars 10 n.whole 0)
    (Nat.pow_pos (by decide) : 0 < 10 ^ n.fraction.length)
  omega

/-- Digits of at most 64 bits are all read. -/
theorem magnitude?_eq {n : Numeral}
    (h : Nat.ofDigitChars 10 (n.whole ++ n.fraction) 0 < UInt64.size) :
    n.magnitude? = scale (Format.double.nearest (Nat.ofDigitChars 10 (n.whole ++ n.fraction) 0) 1)
      (n.exponent.getD 0 - n.fraction.length) := by
  have hwhole := leading_eq (ofDigitChars_whole_lt h)
  rw [Nat.ofDigitChars_append] at h ⊢
  simp only [magnitude?, hwhole, leading_eq h, Nat.sub_self, Nat.cast_zero, zero_sub]
  congr 1
  omega

/-- A number up to the midpoint is read, if its digits before the point have at most 64 bits. -/
theorem isSome_magnitude? {n : Numeral} (hwhole : Nat.ofDigitChars 10 n.whole 0 < UInt64.size)
    (h : n.value ≤ midpoint) : n.magnitude?.isSome := by
  simp only [magnitude?, leading_eq hwhole, Nat.sub_self, Nat.cast_zero, zero_sub]
  refine isSome_scale (leading_lt hwhole _) ((leading_value_le _ _ _).trans ?_)
  rwa [value, Nat.ofDigitChars_append] at h

end Standin.Numeral
