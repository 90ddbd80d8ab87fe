import Standin.Proofs.JsonText
import Standin.Proofs.NumberReading

/-!
# Written numbers are read

The shortest digits of a magnitude do not exceed the upper end of the numbers that round to it
(`Format.shortest_value_le`), whatever the tie rule is. A layout keeps the number that the digits
mean, and has a text. So every finite number is written in a form that is read, as some number.
-/

namespace Standin

/-! ## Powers of ten and of two -/

theorem tenfold_pos (n : ℕ) (e : ℤ) : 0 < (tenfold n e).2 := by
  unfold tenfold
  split
  · exact Nat.one_pos
  · exact Nat.pow_pos (by decide)

theorem tenfold_div (n : ℕ) (e : ℤ) : ((tenfold n e).1 : ℚ) / (tenfold n e).2 = n * 10 ^ e := by
  unfold tenfold
  split
  · next h => simp [zpow_of_nonneg 10 h]
  · next h => simp [zpow_of_neg 10 h, div_eq_mul_inv]

/-- The decimal logarithm of two is near enough to `0.30103`. -/
theorem ten_zpow_le_two_zpow {k b : ℤ} (hlow : -20000 ≤ b) (hhigh : b ≤ 16000)
    (h : 100000 * (k + 1) ≤ 30103 * b) : (10 : ℚ) ^ k ≤ 2 ^ b := by
  rcases lt_or_ge k 0 with hk | hk
  · rcases lt_or_ge b 0 with hb | hb
    · -- `2 ^ 93 ≤ 10 ^ 28`
      obtain ⟨n, rfl⟩ : ∃ n : ℕ, k = -n := ⟨k.natAbs, by omega⟩
      obtain ⟨c, rfl⟩ : ∃ c : ℕ, b = -c := ⟨b.natAbs, by omega⟩
      rw [zpow_neg, zpow_neg, zpow_natCast, zpow_natCast]
      refine inv_anti₀ (by positivity) ?_
      rw [← pow_le_pow_iff_left₀ (by positivity) (by positivity) (by decide : 93 ≠ 0)]
      calc ((2 : ℚ) ^ c) ^ 93 = (2 ^ 93) ^ c := by rw [← pow_mul, ← pow_mul, mul_comm]
        _ ≤ (10 ^ 28) ^ c := pow_le_pow_left₀ (by positivity) (by norm_num) c
        _ = 10 ^ (28 * c) := by rw [← pow_mul]
        _ ≤ 10 ^ (n * 93) := pow_le_pow_right₀ (by norm_num) (by omega)
        _ = (10 ^ n) ^ 93 := by rw [← pow_mul]
    · calc (10 : ℚ) ^ k ≤ 10 ^ (0 : ℤ) := zpow_le_zpow_right₀ (by norm_num) hk.le
        _ = 2 ^ (0 : ℤ) := by simp
        _ ≤ 2 ^ b := zpow_le_zpow_right₀ one_le_two hb
  · -- `10 ^ 31 ≤ 2 ^ 103`
    obtain ⟨n, rfl⟩ := Int.eq_ofNat_of_zero_le hk
    obtain ⟨c, rfl⟩ := Int.eq_ofNat_of_zero_le (show 0 ≤ b by omega)
    rw [zpow_natCast, zpow_natCast,
      ← pow_le_pow_iff_left₀ (by positivity) (by positivity) (by decide : 31 ≠ 0)]
    calc ((10 : ℚ) ^ n) ^ 31 = (10 ^ 31) ^ n := by rw [← pow_mul, ← pow_mul, mul_comm]
      _ ≤ (2 ^ 103) ^ n := pow_le_pow_left₀ (by positivity) (by norm_num) n
      _ = 2 ^ (103 * n) := by rw [← pow_mul]
      _ ≤ 2 ^ (c * 31) := pow_le_pow_right₀ (by norm_num) (by omega)
      _ = (2 ^ c) ^ 31 := by rw [← pow_mul]

/-! ## The decimal point -/

theorem le_pointFrom {num den : ℕ} (hd : 0 < den) (fuel : ℕ) {k : ℤ}
    (h : (10 : ℚ) ^ (k - 1) ≤ num / den) :
    (10 : ℚ) ^ (pointFrom num den fuel k - 1) ≤ num / den := by
  induction fuel generalizing k with
  | zero => exact h
  | succ fuel ih =>
    rw [pointFrom]
    split
    · exact h
    · next hle =>
      refine ih ?_
      have hden : (0 : ℚ) < den := by exact_mod_cast hd
      have hpos : (0 : ℚ) < (tenfold 1 k).2 := by exact_mod_cast tenfold_pos 1 k
      have hten := tenfold_div 1 k
      rw [Nat.cast_one, one_mul] at hten
      rw [add_sub_cancel_right, ← hten, div_le_div_iff₀ hpos hden]
      exact_mod_cast not_lt.1 hle

/-- The point is never placed too far to the right. -/
theorem ten_zpow_pointOf_le {num den : ℕ} (hd : 0 < den)
    (hlow : (2 : ℚ) ^ (-19000 : ℤ) ≤ num / den) (hhigh : (num : ℚ) / den < 2 ^ (16000 : ℤ)) :
    (10 : ℚ) ^ (pointOf num den - 1) ≤ num / den := by
  have hn : num ≠ 0 := by
    rintro rfl
    rw [Nat.cast_zero, zero_div] at hlow
    exact absurd hlow (not_le.2 (by positivity))
  have hbits := Format.two_zpow_lt_div hn hd
  have habove := Format.div_lt_two_zpow num hd
  have hb := (zpow_lt_zpow_iff_right₀ (one_lt_two : (1 : ℚ) < 2)).1 (hbits.trans hhigh)
  have hb' := (zpow_lt_zpow_iff_right₀ (one_lt_two : (1 : ℚ) < 2)).1 (hlow.trans_lt habove)
  refine le_pointFrom hd 4 (le_trans (ten_zpow_le_two_zpow ?_ ?_ ?_) hbits.le)
  · omega
  · omega
  · rw [Int.fdiv_eq_ediv_of_nonneg _ (by decide)]
    omega

/-! ## The interval of a magnitude -/

/-- The upper end of the numbers that round to a finite magnitude: half a place above it. -/
def Format.top (f : Format) (bits : ℕ) : ℚ :=
  f.value bits + 2 ^ (f.toDyadic bits).place / 2

namespace Interval

variable (f : Format) (bits : ℕ)

theorem scale_pos : 0 < (ofBits f bits).scale :=
  Nat.mul_pos (by decide) (Dyadic.ratio_pos _)

theorem unit_div : ((Dyadic.ratio ⟨1, (f.toDyadic bits).place⟩).1 : ℚ) /
    (Dyadic.ratio ⟨1, (f.toDyadic bits).place⟩).2 = 2 ^ (f.toDyadic bits).place := by
  rw [Dyadic.ratio_eq, Dyadic.value, Nat.cast_one, one_mul]

theorem value_div : ((ofBits f bits).value : ℚ) / (ofBits f bits).scale = f.value bits := by
  simp only [ofBits, Nat.cast_mul, Nat.cast_ofNat]
  rw [mul_div_mul_comm, unit_div, Format.value, Dyadic.value]
  ring

theorem high_div : ((ofBits f bits).high : ℚ) / (ofBits f bits).scale = f.top bits := by
  simp only [ofBits, Nat.cast_mul, Nat.cast_add, Nat.cast_ofNat]
  rw [mul_div_mul_comm, unit_div, Format.top, Format.value, Dyadic.value]
  ring

theorem le_of_contains {i : Interval} (hs : 0 < i.scale) {num den : ℕ} (hd : 0 < den)
    (h : i.contains num den) : (num : ℚ) / den ≤ i.high / i.scale := by
  have hle : num * i.scale ≤ i.high * den := by
    unfold contains at h
    split at h <;> simp only [Bool.and_eq_true, decide_eq_true_eq] at h <;> omega
  rw [div_le_div_iff₀ (by exact_mod_cast hd) (by exact_mod_cast hs)]
  exact_mod_cast hle

end Interval

/-! ## The digits -/

/-- The number that is meant. -/
def Digits.value (d : Digits) : ℚ :=
  d.digits * 10 ^ (d.point - (Nat.toDigits 10 d.digits).length)

theorem candidate_spec {tie : Tie} {i : Interval} {point : ℤ} {count n : ℕ}
    (h : candidate tie i point count = some n) :
    n ≠ 0 ∧ i.contains (n * (tenfold 1 (point - count)).1) (tenfold 1 (point - count)).2 ∧
      i.value * (tenfold 1 (point - count)).2 / (i.scale * (tenfold 1 (point - count)).1) ≤ n := by
  simp only [candidate] at h
  generalize tenfold 1 (point - count) = grid at h ⊢
  generalize i.value * grid.2 / (i.scale * grid.1) = down at h ⊢
  -- Each neighbour is taken only where its own test has succeeded.
  have hdown : (down ≠ 0 && i.contains (down * grid.1) grid.2) = true → n = down →
      n ≠ 0 ∧ i.contains (n * grid.1) grid.2 ∧ down ≤ n := by
    rintro hin rfl
    simp only [ne_eq, decide_not, Bool.and_eq_true, Bool.not_eq_true', decide_eq_false_iff_not]
      at hin
    exact ⟨hin.1, hin.2, le_rfl⟩
  have hup : i.contains ((down + 1) * grid.1) grid.2 = true → n = down + 1 →
      n ≠ 0 ∧ i.contains (n * grid.1) grid.2 ∧ down ≤ n := by
    rintro hin rfl
    exact ⟨Nat.succ_ne_zero down, hin, Nat.le_succ down⟩
  split at h
  · next hboth =>
    obtain ⟨hdownIn, hupIn⟩ := Bool.and_eq_true_iff.1 hboth
    split at h
    · exact hdown hdownIn (Option.some.inj h).symm
    · split at h
      · exact hup hupIn (Option.some.inj h).symm
      · split at h
        · exact hup hupIn (Option.some.inj h).symm
        · split at h
          · exact hdown hdownIn (Option.some.inj h).symm
          · exact hup hupIn (Option.some.inj h).symm
  · split at h
    · next hdownIn => exact hdown hdownIn (Option.some.inj h).symm
    · split at h
      · next hupIn => exact hup hupIn (Option.some.inj h).symm
      · cases h

theorem searchFrom_spec {tie : Tie} {i : Interval} {point : ℤ} {fuel count n c : ℕ}
    (h : searchFrom tie i point fuel count = some (n, c)) :
    count ≤ c ∧ candidate tie i point c = some n := by
  induction fuel generalizing count with
  | zero => cases h
  | succ fuel ih =>
    rw [searchFrom] at h
    split at h
    · next hc =>
      obtain ⟨rfl, rfl⟩ := Prod.mk.inj (Option.some.inj h)
      exact ⟨le_rfl, hc⟩
    · obtain ⟨hle, hc⟩ := ih h
      exact ⟨by omega, hc⟩

/-- Zeros at the end of the digits do not change the number `0.d₁d₂… · 10 ^ point`. -/
theorem value_stripZeros (fuel n : ℕ) (point : ℤ) :
    Digits.value ⟨stripZeros fuel n, point⟩ = Digits.value ⟨n, point⟩ := by
  induction fuel generalizing n with
  | zero => rfl
  | succ fuel ih =>
    rw [stripZeros]
    split
    · next h =>
      simp only [ne_eq, decide_not, Bool.and_eq_true, Bool.not_eq_true', decide_eq_false_iff_not,
        beq_iff_eq] at h
      have hn : (n : ℚ) = (n / 10 : ℕ) * 10 := by exact_mod_cast (by omega : n = n / 10 * 10)
      have hlen : (Nat.toDigits 10 n).length = (Nat.toDigits 10 (n / 10)).length + 1 := by
        rw [Nat.toDigits_of_base_le (by decide) (by omega), List.length_append,
          List.length_singleton]
      rw [ih, Digits.value, Digits.value, hlen, hn, mul_assoc, ← zpow_one_add₀ (by norm_num)]
      congr 2
      push_cast
      ring
    · rfl

theorem stripZeros_ne_zero (fuel : ℕ) {n : ℕ} (hn : n ≠ 0) : stripZeros fuel n ≠ 0 := by
  induction fuel generalizing n with
  | zero => exact hn
  | succ fuel ih =>
    rw [stripZeros]
    split
    · next h =>
      simp only [Bool.and_eq_true, beq_iff_eq] at h
      exact ih (by omega)
    · exact hn

theorem lt_length_toDigits {n k : ℕ} (h : 10 ^ k ≤ n) : k < (Nat.toDigits 10 n).length := by
  by_contra hlen
  have hk : 0 < k := Nat.length_toDigits_pos.trans_le (not_lt.1 hlen)
  have hlt := (Nat.length_toDigits_le_iff (by decide) hk).1 (not_lt.1 hlen)
  omega

/-- Digits that were found do not exceed the upper end, and have at least as many places as were
asked for. -/
theorem le_of_candidate {tie : Tie} {f : Format} {bits : ℕ} {point : ℤ} {count n : ℕ}
    (h : candidate tie (.ofBits f bits) point count = some n) :
    (n : ℚ) * 10 ^ (point - count) ≤ f.top bits := by
  obtain ⟨-, hin, -⟩ := candidate_spec h
  have hle := Interval.le_of_contains (Interval.scale_pos f bits) (tenfold_pos _ _) hin
  rw [Interval.high_div, Nat.cast_mul, mul_div_assoc, tenfold_div, Nat.cast_one, one_mul] at hle
  exact hle

theorem pow_le_of_candidate {tie : Tie} {f : Format} {bits : ℕ} {point : ℤ} {count n : ℕ}
    (hpoint : (10 : ℚ) ^ (point - 1) ≤ f.value bits) (hcount : 1 ≤ count)
    (h : candidate tie (.ofBits f bits) point count = some n) : 10 ^ (count - 1) ≤ n := by
  obtain ⟨-, -, hle⟩ := candidate_spec h
  refine le_trans ?_ hle
  have hgrid : (0 : ℚ) < (tenfold 1 (point - count)).2 := by exact_mod_cast tenfold_pos _ _
  have hten := tenfold_div 1 (point - count)
  have hscale : (0 : ℚ) < (Interval.ofBits f bits).scale := by
    exact_mod_cast Interval.scale_pos f bits
  have hvalue := Interval.value_div f bits
  rw [Nat.cast_one, one_mul, div_eq_iff hgrid.ne'] at hten
  have hpos : (0 : ℚ) < (tenfold 1 (point - count)).1 := by rw [hten]; positivity
  rw [div_eq_iff hscale.ne'] at hvalue
  rw [Nat.le_div_iff_mul_le (Nat.mul_pos (Interval.scale_pos f bits) (by exact_mod_cast hpos)),
    ← Nat.cast_le (α := ℚ)]
  push_cast
  rw [hvalue, hten]
  calc (10 : ℚ) ^ (count - 1) * ((Interval.ofBits f bits).scale *
        (10 ^ (point - count) * (tenfold 1 (point - count)).2))
      = 10 ^ (point - 1) * (Interval.ofBits f bits).scale * (tenfold 1 (point - count)).2 := by
        rw [show point - 1 = (count - 1 : ℕ) + (point - count) by omega,
          zpow_add₀ (by norm_num), zpow_natCast]
        ring
    _ ≤ _ := by gcongr

/-- The shortest digits do not exceed the upper end of the numbers that round to the magnitude. -/
theorem Format.shortest_value_le (f : Format) (tie : Tie) {bits : ℕ}
    (hlow : (2 : ℚ) ^ (-19000 : ℤ) ≤ f.value bits) (hhigh : f.value bits < 2 ^ (16000 : ℤ)) :
    (f.shortest tie bits).value ≤ f.top bits := by
  have hpoint : (10 : ℚ) ^
      (pointOf (Interval.ofBits f bits).value (Interval.ofBits f bits).scale - 1) ≤
        f.value bits := by
    rw [← Interval.value_div] at hlow hhigh ⊢
    exact ten_zpow_pointOf_le (Interval.scale_pos f bits) hlow hhigh
  unfold shortest
  simp only
  split
  · next n count hsearch =>
    obtain ⟨hcount, hn⟩ := searchFrom_spec hsearch
    rw [value_stripZeros]
    refine le_trans ?_ (le_of_candidate hn)
    refine mul_le_mul_of_nonneg_left (zpow_le_zpow_right₀ (by norm_num) ?_) (Nat.cast_nonneg n)
    show (if n = Nat.pow 10 count then _ else _) - ((Nat.toDigits 10 n).length : ℤ) ≤ _
    split_ifs with hround
    · have hlen := lt_length_toDigits hround.ge
      omega
    · have hlen := lt_length_toDigits (pow_le_of_candidate hpoint hcount hn)
      omega
  · have : (0 : ℚ) ≤ f.top bits := by
      unfold top
      have := f.value_nonneg bits
      positivity
    simpa [Digits.value] using this

theorem Format.point_shortest {f : Format} {tie : Tie} {bits : ℕ}
    (h : (f.shortest tie bits).digits = 0) : (f.shortest tie bits).point = 0 := by
  unfold shortest at h ⊢
  simp only at h ⊢
  split at h
  · next n count hsearch =>
    exact absurd h (stripZeros_ne_zero _ (candidate_spec (searchFrom_spec hsearch).2).1)
  · rfl

/-! ## Layouts -/

theorem ofDigitChars_lt {ds : List Char} (h : ∀ c ∈ ds, c.isDigit) (m : ℕ) :
    Nat.ofDigitChars 10 ds m < (m + 1) * 10 ^ ds.length := by
  induction ds generalizing m with
  | nil => simp
  | cons c ds ih =>
    have hc : c.toNat - '0'.toNat ≤ 9 := by
      have hdigit := h c List.mem_cons_self
      simp only [Char.isDigit, Bool.and_eq_true, decide_eq_true_eq] at hdigit
      have : c.toNat ≤ 57 := hdigit.2
      exact Nat.sub_le_sub_right this 48
    calc Nat.ofDigitChars 10 (c :: ds) m
        < (10 * m + (c.toNat - '0'.toNat) + 1) * 10 ^ ds.length := by
          rw [Nat.ofDigitChars_cons]
          exact ih (fun c hc => h c (List.mem_cons_of_mem _ hc)) _
      _ ≤ ((m + 1) * 10) * 10 ^ ds.length := Nat.mul_le_mul_right _ (by omega)
      _ = (m + 1) * 10 ^ (c :: ds).length := by rw [List.length_cons, pow_succ]; ring

theorem Numeral.IsWhole.take {ds : List Char} (h : IsWhole ds) {k : ℕ} (hk : 0 < k) :
    IsWhole (ds.take k) where
  ne_nil := by simp [h.ne_nil, hk.ne']
  isDigit c hc := h.isDigit c (List.mem_of_mem_take hc)
  leading hlen := by
    rw [List.length_take] at hlen
    rw [List.head?_take, if_neg hk.ne']
    exact h.leading (by omega)

theorem Numeral.isWhole_append_zeros {n : ℕ} (hn : n ≠ 0) (k : ℕ) :
    IsWhole (Nat.toDigits 10 n ++ List.replicate k '0') where
  ne_nil := by simp [Nat.toDigits_ne_nil]
  isDigit := by
    intro c hc
    rcases List.mem_append.1 hc with hc | hc
    · exact Json.isDigit_toDigits _ c hc
    · rw [List.eq_of_mem_replicate hc]
      rfl
  leading := by
    intro _
    rw [List.head?_append_of_ne_nil _ Nat.toDigits_ne_nil]
    exact Json.head?_toDigits_ne hn

namespace Written

/-- The written number with a sign. -/
def numeral (w : Written) (negative : Bool) : Numeral :=
  ⟨negative, w.whole, w.fraction, w.exponent⟩

/-- The written number can be told from its text, it is the given one, and its digits before the
point have at most 64 bits. -/
structure Denotes (w : Written) (x : ℚ) : Prop where
  isWritable (negative : Bool) : (w.numeral negative).IsWritable
  value_eq (negative : Bool) : (w.numeral negative).value = x
  length_le : w.whole.length ≤ 19

theorem Denotes.isSome_magnitude? {w : Written} {x : ℚ} (h : w.Denotes x)
    (hx : x ≤ Numeral.midpoint) (negative : Bool) : (w.numeral negative).magnitude?.isSome := by
  refine Numeral.isSome_magnitude? ?_ ((h.value_eq negative).trans_le hx)
  calc Nat.ofDigitChars 10 w.whole 0
      < (0 + 1) * 10 ^ w.whole.length := ofDigitChars_lt (h.isWritable negative).whole.isDigit 0
    _ ≤ (0 + 1) * 10 ^ 19 := Nat.mul_le_mul_left _ (Nat.pow_le_pow_right (by decide) h.length_le)
    _ ≤ UInt64.size := by decide

end Written

theorem Digits.scientific_denotes (d : Digits) : d.scientific.Denotes d.value where
  isWritable negative := {
    whole := (Json.isWhole_toDigits d.digits).take one_pos
    fraction := fun c hc => Json.isDigit_toDigits _ c (List.mem_of_mem_drop hc)
    not_int := by simp [Written.numeral, scientific] }
  value_eq negative := by
    have hlen := Nat.length_toDigits_pos (b := 10) (n := d.digits)
    simp only [Numeral.value, Written.numeral, scientific, List.take_append_drop,
      Nat.ofDigitChars_ten_toDigits, Option.getD_some, List.length_drop, value]
    congr 2
    omega
  length_le := by
    simp only [scientific, List.length_take]
    omega

theorem Digits.magnitude?_scientific {d : Digits} (h : d.digits < UInt64.size) (negative : Bool) :
    (d.scientific.numeral negative).magnitude? =
      Numeral.scale (Format.double.nearest d.digits 1)
        (d.point - (Nat.toDigits 10 d.digits).length) := by
  have hlen := Nat.length_toDigits_pos (b := 10) (n := d.digits)
  have hdigits : Nat.ofDigitChars 10 ((d.scientific.numeral negative).whole ++
      (d.scientific.numeral negative).fraction) 0 = d.digits := by
    simp only [Written.numeral, scientific, List.take_append_drop, Nat.ofDigitChars_ten_toDigits]
  rw [Numeral.magnitude?_eq (hdigits ▸ h), hdigits]
  simp only [Written.numeral, scientific, Option.getD_some, List.length_drop]
  congr 1
  omega

/-- All digits after the point. -/
theorem Digits.denotes_of_nonpos {d : Digits} (h : d.point ≤ 0) :
    Written.Denotes ⟨['0'], List.replicate (-d.point).toNat '0' ++ Nat.toDigits 10 d.digits, none⟩
      d.value where
  isWritable negative := {
    whole := Json.isWhole_toDigits 0
    fraction := by
      intro c hc
      rcases List.mem_append.1 hc with hc | hc
      · rw [List.eq_of_mem_replicate hc]
        rfl
      · exact Json.isDigit_toDigits _ c hc
    not_int := by simp [Written.numeral, Nat.toDigits_ne_nil] }
  value_eq negative := by
    have hdigits : Nat.ofDigitChars 10
        (['0'] ++ (List.replicate (-d.point).toNat '0' ++ Nat.toDigits 10 d.digits)) 0 =
          d.digits := by
      simp [Nat.ofDigitChars_append, Nat.ofDigitChars_cons]
    simp only [Numeral.value, Written.numeral, hdigits, Option.getD_none, List.length_append,
      List.length_replicate, value]
    congr 2
    omega
  length_le := by simp

/-- Digits on both sides of the point. -/
theorem Digits.denotes_of_lt {d : Digits} {k : ℕ} (hk : d.point = k) (hpos : 0 < k) (hle : k ≤ 19)
    (hlt : k < (Nat.toDigits 10 d.digits).length) :
    Written.Denotes ⟨(Nat.toDigits 10 d.digits).take k, (Nat.toDigits 10 d.digits).drop k, none⟩
      d.value where
  isWritable negative := {
    whole := (Json.isWhole_toDigits d.digits).take hpos
    fraction := fun c hc => Json.isDigit_toDigits _ c (List.mem_of_mem_drop hc)
    not_int := by simp [Written.numeral, hlt] }
  value_eq negative := by
    simp only [Numeral.value, Written.numeral, List.take_append_drop, Nat.ofDigitChars_ten_toDigits,
      Option.getD_none, List.length_drop, value]
    congr 2
    omega
  length_le := by
    simp only [List.length_take]
    omega

/-- All digits before the point. -/
theorem Digits.denotes_of_le {d : Digits} {k : ℕ} (hk : d.point = k) (hd : d.digits ≠ 0)
    (hle : k ≤ 19) (hlen : (Nat.toDigits 10 d.digits).length ≤ k) :
    Written.Denotes ⟨Nat.toDigits 10 d.digits ++
      List.replicate (k - (Nat.toDigits 10 d.digits).length) '0', ['0'], none⟩ d.value where
  isWritable negative := {
    whole := Numeral.isWhole_append_zeros hd _
    fraction := by simp [Written.numeral]
    not_int := by simp [Written.numeral] }
  value_eq negative := by
    have hdigits : Nat.ofDigitChars 10 (Nat.toDigits 10 d.digits ++
        List.replicate (k - (Nat.toDigits 10 d.digits).length) '0' ++ ['0']) 0 =
          d.digits * 10 ^ (k - (Nat.toDigits 10 d.digits).length + 1) := by
      simp [Nat.ofDigitChars_append, Nat.ofDigitChars_cons, pow_succ]
      ring
    simp only [Numeral.value, Written.numeral, hdigits, Option.getD_none, List.length_singleton,
      value]
    push_cast
    rw [mul_assoc, ← zpow_natCast, ← zpow_add₀ (by norm_num)]
    congr 2
    push_cast
    omega
  length_le := by
    simp only [List.length_append, List.length_replicate]
    omega

theorem Digits.positional_denotes {d : Digits} (hzero : d.digits = 0 → d.point = 0)
    (hpoint : d.point ≤ 19) : d.positional.Denotes d.value := by
  simp only [positional]
  split_ifs with hnonpos hlt
  · exact denotes_of_nonpos hnonpos
  · exact denotes_of_lt (by omega) (by omega) (by omega) hlt
  · exact denotes_of_le (by omega) (by omega) (by omega) (by omega)

/-- A layout keeps the number that the digits mean. -/
theorem Layout.write_denotes (l : Layout) (f : Format) (hl : l.upTo ≤ 19) (bits : ℕ) :
    (l.write f bits).Denotes (if bits = 0 then 0 else (f.shortest l.tie bits).value) := by
  simp only [write]
  split_ifs with hbits hpoint
  · exact ⟨fun _ => ⟨Json.isWhole_toDigits 0, by simp [Written.numeral], by simp [Written.numeral]⟩,
      fun _ => by simp [Numeral.value, Written.numeral, Nat.ofDigitChars_cons], by simp⟩
  · simp only [Bool.and_eq_true, decide_eq_true_eq] at hpoint
    exact Digits.positional_denotes Format.point_shortest (by omega)
  · exact Digits.scientific_denotes _

/-! ## Numbers of the two formats -/

theorem Format.place_mono (f : Format) {x y : ℕ} (h : x ≤ y) :
    (f.toDyadic x).place ≤ (f.toDyadic y).place := by
  have hexp : x / 2 ^ f.fractionBits ≤ y / 2 ^ f.fractionBits := Nat.div_le_div_right h
  simp only [toDyadic, Nat.pow_eq]
  split_ifs with hx hy hy <;> simp only <;> omega

theorem Format.top_mono (f : Format) {x y : ℕ} (h : x ≤ y) : f.top x ≤ f.top y := by
  have hplace : (2 : ℚ) ^ (f.toDyadic x).place ≤ 2 ^ (f.toDyadic y).place :=
    zpow_le_zpow_right₀ one_le_two (f.place_mono h)
  unfold top
  linarith [f.value_mono h]

theorem Format.value_le_top (f : Format) (bits : ℕ) : f.value bits ≤ f.top bits := by
  unfold top
  have hpos : (0 : ℚ) < 2 ^ (f.toDyadic bits).place := by positivity
  linarith

theorem Numeral.midpoint_lt : (midpoint : ℚ) < 2 ^ (16000 : ℤ) := by
  have hnat : midpoint < 2 ^ 1024 := by decide +kernel
  calc (midpoint : ℚ) < ((2 ^ 1024 : ℕ) : ℚ) := Nat.cast_lt.2 hnat
    _ = 2 ^ ((1024 : ℕ) : ℤ) := by rw [Nat.cast_pow, Nat.cast_ofNat, zpow_natCast]
    _ ≤ 2 ^ (16000 : ℤ) := zpow_le_zpow_right₀ one_le_two (by decide)

/-- Magnitudes up to one whose upper end can be read are written in a form that is read. -/
theorem Layout.isSome_magnitude?_write (l : Layout) {f : Format} (hl : l.upTo ≤ 19)
    (hlow : (2 : ℚ) ^ (-19000 : ℤ) ≤ f.value 1) {bits most : ℕ} (hbits : bits ≤ most)
    (hmost : f.top most ≤ Numeral.midpoint) (negative : Bool) :
    ((l.write f bits).numeral negative).magnitude?.isSome := by
  refine (l.write_denotes f hl bits).isSome_magnitude? ?_ negative
  split_ifs with hzero
  · exact Nat.cast_nonneg _
  · have htop : f.top bits ≤ Numeral.midpoint := (f.top_mono hbits).trans hmost
    refine (f.shortest_value_le l.tie ?_ ?_).trans htop
    · exact hlow.trans (f.value_mono (Nat.one_le_iff_ne_zero.2 hzero))
    · exact ((f.value_le_top bits).trans htop).trans_lt Numeral.midpoint_lt

theorem Format.le_value_of_toDyadic {f : Format} {bits : ℕ} {p : ℤ}
    (h : f.toDyadic bits = ⟨1, p⟩) (hp : -19000 ≤ p) : (2 : ℚ) ^ (-19000 : ℤ) ≤ f.value bits := by
  rw [value, h, Dyadic.value, Nat.cast_one, one_mul]
  exact zpow_le_zpow_right₀ one_le_two hp

theorem Format.top_le_of_toDyadic {f : Format} {bits n p m : ℕ} (h : f.toDyadic bits = ⟨n, p⟩)
    (hm : (2 * n + 1) * 2 ^ p ≤ 2 * m) : f.top bits ≤ m := by
  have hcast : (2 * (n : ℚ) + 1) * 2 ^ p ≤ 2 * m := by exact_mod_cast hm
  rw [top, value, h, Dyadic.value, zpow_natCast]
  linarith

/-- The number is neither infinite nor undefined. -/
def Binary32.IsFinite (x : Binary32) : Prop :=
  Format.single.magnitude x.bits.toNat < Format.single.infinity

/-- The number is neither infinite nor undefined. -/
def Binary64.IsFinite (x : Binary64) : Prop :=
  Format.double.magnitude x.bits.toNat < Format.double.infinity

instance (x : Binary32) : Decidable x.IsFinite :=
  inferInstanceAs (Decidable (_ < _))

instance (x : Binary64) : Decidable x.IsFinite :=
  inferInstanceAs (Decidable (_ < _))

theorem Binary64.isFinite_ofMagnitude (negative : Bool) {m : ℕ} (h : m < Format.double.infinity) :
    (ofMagnitude negative m).IsFinite := by
  have hsign : Format.double.signBit = 2 ^ 63 := by decide
  have hinf : Format.double.infinity < 2 ^ 63 := by decide
  have hmod : Format.double.magnitude (ofMagnitude negative m).bits.toNat = m := by
    simp only [ofMagnitude, Format.magnitude, hsign, UInt64.toNat_ofNat']
    split <;> omega
  rwa [IsFinite, hmod]

namespace Json

/-- A number that is read into the 64-bit format is finite. -/
theorem isFinite_of_double? {j : Json} {x : Binary64} (h : j.double? = some x) : x.IsFinite := by
  unfold double? at h
  split at h
  · obtain ⟨m, hm, rfl⟩ := Option.map_eq_some_iff.1 h
    exact Binary64.isFinite_ofMagnitude _ (Numeral.magnitude?_lt hm)
  · obtain ⟨m, hm, rfl⟩ := Option.map_eq_some_iff.1 h
    exact Binary64.isFinite_ofMagnitude _ (Numeral.magnitude?_lt hm)
  · cases h

theorem ofBinary_of_lt (l : Layout) {f : Format} {bits : ℕ} (h : f.magnitude bits < f.infinity) :
    ofBinary l f bits =
      .number ((l.write f (f.magnitude bits)).numeral (f.magnitude bits < bits)) := by
  simp only [ofBinary, if_pos h]
  rfl

theorem ofBinary_of_not_lt (l : Layout) {f : Format} {bits : ℕ}
    (h : ¬f.magnitude bits < f.infinity) : ofBinary l f bits = .null := by
  simp only [ofBinary, if_neg h]

theorem isWritable_ofBinary {l : Layout} (hl : l.upTo ≤ 19) (f : Format) (bits : ℕ) :
    (ofBinary l f bits).IsWritable := by
  by_cases h : f.magnitude bits < f.infinity
  · rw [ofBinary_of_lt l h]
    exact .number ((l.write_denotes f hl _).isWritable _)
  · rw [ofBinary_of_not_lt l h]
    exact .null

/-- The greatest finite number of the 64-bit format lies above the midpoint. -/
theorem isSome_magnitude?_greatest (negative : Bool) :
    ((doubleLayout.write .double (Format.double.infinity - 1)).numeral
      negative).magnitude?.isSome := by
  have hdigits : Format.double.shortest .even (Format.double.infinity - 1) =
      ⟨17976931348623157, 309⟩ := by decide +kernel
  have hwrite : doubleLayout.write .double (Format.double.infinity - 1) =
      Digits.scientific ⟨17976931348623157, 309⟩ := by
    have hne : Format.double.infinity - 1 ≠ 0 := by decide
    simp [Layout.write, doubleLayout, hne, hdigits]
  have hlen : (Nat.toDigits 10 17976931348623157).length = 17 := by decide
  rw [hwrite, Digits.magnitude?_scientific (by decide), hlen]
  exact Numeral.isSome_scale_of_mul_lt (k := 292) (by decide) (by decide +kernel)

theorem single?_number (n : Numeral) : (Json.number n).single?.isSome = n.magnitude?.isSome := by
  simp [single?]

theorem double?_number (n : Numeral) : (Json.number n).double?.isSome = n.magnitude?.isSome := by
  simp [double?]

/-- Every finite number of the 32-bit format is written in a form that is read, and no other. -/
theorem isSome_single?_ofSingle (x : Binary32) : (ofSingle x).single?.isSome ↔ x.IsFinite := by
  by_cases h : x.IsFinite
  · refine iff_of_true ?_ h
    have hleast : Format.single.toDyadic 1 = ⟨1, -149⟩ := by decide +kernel
    have hmost : Format.single.toDyadic (Format.single.infinity - 1) = ⟨2 ^ 24 - 1, (104 : ℕ)⟩ := by
      decide +kernel
    rw [ofSingle, ofBinary_of_lt _ h, single?_number]
    exact Layout.isSome_magnitude?_write _ (by decide)
      (Format.le_value_of_toDyadic hleast (by decide)) (Nat.le_sub_one_of_lt h)
      (Format.top_le_of_toDyadic hmost (by decide +kernel)) _
  · rw [ofSingle, ofBinary_of_not_lt _ h]
    exact iff_of_false (by simp [single?]) h

/-- Every finite number of the 64-bit format is written in a form that is read. -/
theorem isSome_double?_ofDouble {x : Binary64} (h : x.IsFinite) : (ofDouble x).double?.isSome := by
  rw [ofDouble, ofBinary_of_lt _ h, double?_number]
  obtain hgreatest | hless := (Nat.le_sub_one_of_lt h).eq_or_lt
  · rw [hgreatest]
    exact isSome_magnitude?_greatest _
  · have hleast : Format.double.toDyadic 1 = ⟨1, -1074⟩ := by decide +kernel
    have hmost : Format.double.toDyadic (Format.double.infinity - 1 - 1) =
        ⟨2 ^ 53 - 2, (971 : ℕ)⟩ := by decide +kernel
    exact Layout.isSome_magnitude?_write _ (by decide)
      (Format.le_value_of_toDyadic hleast (by decide)) (Nat.le_sub_one_of_lt hless)
      (Format.top_le_of_toDyadic hmost (by decide +kernel)) _

end Json

end Standin
