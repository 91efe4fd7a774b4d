import RandomXSp1.SoftFp.Theorems

/-!
# Correct rounding of the operations

Each operation compares the exact magnitude with the nearest one in integers. The bounds that
keep the aligned coefficients inside `u128` come from the nearest result itself: it is within
half a unit in the last place of the exact one.
-/

namespace RandomXSp1.SoftFp

open Ieee

section
variable {x : ℝ} {zs : Bool} {n : U64}

/-! ## The nearest value bounds the exact one -/

lemma scale_magnitude_ulp (n : U64) :
    gridUlp 52 (-1074) (mag n) = 2 ^ (magnitude n).scale := by
  rw [magnitude_eq]
  rfl

lemma abs_sub_value_le (hn : RoundsNearest x n) (hfin : IsFinite n) :
    |x - value n| ≤ 2 ^ (magnitude n).scale / 2 := by
  rw [← scale_magnitude_ulp]
  exact hn.abs_sub_le hfin

lemma abs_value_lt (b : U64) : |value b| < 2 ^ 53 * 2 ^ (magnitude b).scale := by
  rw [← toReal_magnitude]
  exact_mod_cast Magnitude.toReal_lt (coefficient_magnitude_lt b)

lemma abs_lt_of_nearest (hn : RoundsNearest x n) (hfin : IsFinite n) :
    |x| < 2 ^ 54 * 2 ^ (magnitude n).scale := by
  have h1 := abs_sub_value_le hn hfin
  have h2 := abs_value_lt n
  have h3 := abs_sub_abs_le_abs_sub x (value n)
  have hpos : (0 : ℝ) < 2 ^ (magnitude n).scale := by positivity
  linarith

/-- A nearest value that is not zero is at most twice the exact one. -/
lemma abs_value_le_two_mul (hn : RoundsNearest x n) (hfin : IsFinite n)
    (h0 : (magnitude n).coefficient ≠ 0) : |value n| ≤ 2 * |x| := by
  have h1 := abs_sub_value_le hn hfin
  have h2 := Magnitude.le_toReal h0
  have h3 := abs_sub_abs_le_abs_sub (value n) x
  rw [toReal_magnitude] at h2
  rw [abs_sub_comm] at h1
  linarith

/-- An exact magnitude is compared with the nearest one when the latter stays in range of its
scale. -/
lemma comparable_nearest {e : Magnitude} (hn : RoundsNearest x n) (hfin : IsFinite n)
    (he : e.toReal = |x|)
    (hv : (magnitude n).coefficient ≠ 0 → |value n| < 2 ^ 128 * 2 ^ e.scale) :
    Comparable e (magnitude n) := by
  intro _ h0
  rw [he, toReal_magnitude]
  refine ⟨?_, hv h0⟩
  have hlt := abs_lt_of_nearest hn hfin
  have hpos : (0 : ℝ) < 2 ^ (magnitude n).scale := by positivity
  linarith

lemma compareNearbyScaled_nearest {e : Magnitude} (he : e.toReal = |x|)
    (h : Comparable e (magnitude n)) :
    compareNearbyScaled e (magnitude n) = compare |x| |value n| := by
  rw [compareNearbyScaled_eq h, he, toReal_magnitude]

/-! ## The common end of the operations -/

/-- A relation that compares the magnitudes, read with the sign of the exact result, leads to
the rounding in every mode. -/
theorem directed_rounds (hn : Rounds .nearestEven x zs n) {relation : Ordering}
    {negative : Bool} (hneg : negative = true → x ≤ 0) (hpos : negative = false → 0 ≤ x)
    (hrel : IsFinite n → relation = reverseIfNegative (compare |x| |value n|) negative)
    (mode : RoundingMode) :
    Rounds mode.toMode x zs
      (match directedOverflow n mode with
        | some overflow => overflow
        | none => applyMode n relation negative mode) := by
  by_cases hfin : IsFinite n
  · have hcompare : relation = compare x (value n) := by
      rw [hrel hfin]
      apply reverseIfNegative_compare
      · exact fun h => ⟨hneg h, value_nonpos_of_rounds hn (hneg h)⟩
      · exact fun h => ⟨hpos h, value_nonneg_of_rounds hn (hpos h)⟩
    rw [directedOverflow_of_isFinite hfin, hcompare]
    refine applyMode_rounds hn hfin (fun hne => ?_) mode
    constructor
    · intro h
      refine lt_of_le_of_ne (hneg h) ?_
      intro h0
      -- an exact zero is its own nearest value
      have h1 := value_nonneg_of_rounds hn h0.ge
      have h2 := value_nonpos_of_rounds hn h0.le
      exact hne (by linarith)
    · intro h
      by_contra hcon
      exact absurd (hpos (by simpa using hcon)) (not_le.mpr h)
  · obtain ⟨r, hr, hrounds⟩ := directedOverflow_rounds hn (hn.isInf hfin) mode
    rw [hr]
    exact hrounds

end

/-! ## Products, quotients and roots -/

lemma xor_and_signMask_bne (a b : U64) :
    ((a ^^^ b) &&& signMask != 0) = (a.msb ^^ b.msb) := by
  rw [and_signMask_bne, BitVec.msb_xor]

lemma value_nonpos_of_msb {b : U64} (h : b.msb = true) : value b ≤ 0 := by
  rw [value_of_neg h]
  linarith [gridVal_nonneg (t := 52) (q := -1074) (mag b)]

lemma value_nonneg_of_msb {b : U64} (h : b.msb = false) : 0 ≤ value b := by
  rw [value_of_pos h]
  exact gridVal_nonneg _

lemma value_mul_nonpos {a b : U64} (h : (a.msb ^^ b.msb) = true) : value a * value b ≤ 0 := by
  cases ha : a.msb <;> rw [ha] at h
  · exact mul_nonpos_of_nonneg_of_nonpos (value_nonneg_of_msb ha)
      (value_nonpos_of_msb (by simpa using h))
  · exact mul_nonpos_of_nonpos_of_nonneg (value_nonpos_of_msb ha)
      (value_nonneg_of_msb (by simpa using h))

lemma value_mul_nonneg {a b : U64} (h : (a.msb ^^ b.msb) = false) : 0 ≤ value a * value b := by
  cases ha : a.msb <;> rw [ha] at h
  · exact mul_nonneg (value_nonneg_of_msb ha) (value_nonneg_of_msb (by simpa using h))
  · exact mul_nonneg_of_nonpos_of_nonpos (value_nonpos_of_msb ha)
      (value_nonpos_of_msb (by simpa using h))

lemma coefficient_mul_lt (a b : U64) :
    (magnitude a).coefficient * (magnitude b).coefficient < 2 ^ 128 := by
  calc (magnitude a).coefficient * (magnitude b).coefficient
      ≤ 2 ^ 53 * 2 ^ 53 := Nat.mul_le_mul (coefficient_magnitude_lt a).le
        (coefficient_magnitude_lt b).le
    _ < 2 ^ 128 := by norm_num

lemma toReal_multiplyMagnitudes (a b : U64) :
    (multiplyMagnitudes (magnitude a) (magnitude b)).toReal = |value a| * |value b| := by
  rw [multiplyMagnitudes, Magnitude.toReal, Nat.mod_eq_of_lt (coefficient_mul_lt a b),
    zpow_add₀ (by norm_num),
    ← toReal_magnitude, ← toReal_magnitude, Magnitude.toReal, Magnitude.toReal]
  push_cast
  ring

lemma scale_multiplyMagnitudes (a b : U64) :
    (2 : ℝ) ^ (multiplyMagnitudes (magnitude a) (magnitude b)).scale =
      2 ^ (magnitude a).scale * 2 ^ (magnitude b).scale :=
  zpow_add₀ (by norm_num) _ _

/-- A product of two values is below `2^106` units of the product of their scales. -/
lemma abs_value_mul_lt (a b : U64) :
    |value a| * |value b| <
      2 ^ 106 * (2 ^ (magnitude a).scale * 2 ^ (magnitude b).scale) := by
  calc |value a| * |value b|
      < (2 ^ 53 * 2 ^ (magnitude a).scale) * (2 ^ 53 * 2 ^ (magnitude b).scale) :=
        mul_lt_mul'' (abs_value_lt a) (abs_value_lt b) (abs_nonneg _) (abs_nonneg _)
    _ = 2 ^ 106 * (2 ^ (magnitude a).scale * 2 ^ (magnitude b).scale) := by ring

section
variable {ops : Nearest} {a b : U64}

lemma comparable_mul {n : U64} (hn : RoundsNearest (value a * value b) n) (hfin : IsFinite n) :
    Comparable (multiplyMagnitudes (magnitude a) (magnitude b)) (magnitude n) := by
  apply comparable_nearest hn hfin (by rw [toReal_multiplyMagnitudes, abs_mul])
  intro h0
  have hle := abs_value_le_two_mul hn hfin h0
  have hlt := abs_value_mul_lt a b
  rw [abs_mul] at hle
  rw [scale_multiplyMagnitudes]
  have hpos : (0 : ℝ) < 2 ^ (magnitude a).scale * 2 ^ (magnitude b).scale := by positivity
  linarith

/-- `mul` rounds the exact product when the nearest helper does. -/
theorem mul_rounds (ha : IsFinite a) (hb : IsFinite b)
    (h : Rounds .nearestEven (value a * value b) (a.msb ^^ b.msb) (ops.mul a b))
    (mode : RoundingMode) :
    Rounds mode.toMode (value a * value b) (a.msb ^^ b.msb) (mul ops a b mode) := by
  by_cases hmode : mode = .nearest
  · rw [mul, if_pos hmode, hmode]
    exact h
  simp only [mul, if_neg hmode, mulInner, isInfinite_eq_false ha, isInfinite_eq_false hb,
    Bool.or_self, Bool.false_eq_true, if_false, xor_and_signMask_bne]
  apply directed_rounds h value_mul_nonpos value_mul_nonneg
  intro hfin
  rw [compareNearbyScaled_nearest (by rw [toReal_multiplyMagnitudes, abs_mul])
    (comparable_mul h.1 hfin)]

lemma abs_div_mul_abs (hb0 : mag b ≠ 0) :
    |value a / value b| * |value b| = |value a| := by
  rw [← abs_mul, div_mul_cancel₀ _ (mt value_eq_zero_iff.mp hb0)]

lemma comparable_div {n : U64} (hb0 : mag b ≠ 0) (hn : RoundsNearest (value a / value b) n)
    (hfin : IsFinite n) :
    Comparable (magnitude a) (multiplyMagnitudes (magnitude n) (magnitude b)) := by
  intro _ hrhs
  have hmul := abs_div_mul_abs (a := a) hb0
  have hvbpos : 0 < |value b| := abs_pos.mpr (mt value_eq_zero_iff.mp hb0)
  have hn0 : (magnitude n).coefficient ≠ 0 := by
    intro h0
    simp [multiplyMagnitudes, h0] at hrhs
  rw [toReal_magnitude, toReal_multiplyMagnitudes, scale_multiplyMagnitudes]
  constructor
  · have hlt := mul_lt_mul'' (abs_lt_of_nearest hn hfin) (abs_value_lt b) (abs_nonneg _)
      (abs_nonneg _)
    rw [hmul] at hlt
    have hpos : (0 : ℝ) < 2 ^ (magnitude n).scale * 2 ^ (magnitude b).scale := by positivity
    linarith
  · have hle := mul_le_mul_of_nonneg_right (abs_value_le_two_mul hn hfin hn0) hvbpos.le
    have hlt := abs_value_lt a
    rw [mul_assoc, hmul] at hle
    have hpos : (0 : ℝ) < 2 ^ (magnitude a).scale := by positivity
    linarith

/-- The quotient is never formed: multiplying the nearest one back by the divisor orders the
dividend as the exact quotient. -/
theorem div_rounds (ha : IsFinite a) (hb : IsFinite b) (hb0 : mag b ≠ 0)
    (h : Rounds .nearestEven (value a / value b) (a.msb ^^ b.msb) (ops.div a b))
    (mode : RoundingMode) :
    Rounds mode.toMode (value a / value b) (a.msb ^^ b.msb) (div ops a b mode) := by
  by_cases hmode : mode = .nearest
  · rw [div, if_pos hmode, hmode]
    exact h
  have hvb : value b ≠ 0 := mt value_eq_zero_iff.mp hb0
  have hvbpos : 0 < |value b| := abs_pos.mpr hvb
  have hquot : value a / value b = value a * value b / (value b * value b) :=
    (mul_div_mul_right _ _ hvb).symm
  simp only [div, if_neg hmode, divInner, isInfinite_eq_false ha, isInfinite_eq_false hb,
    Bool.or_self, Bool.false_eq_true, if_false, xor_and_signMask_bne]
  apply directed_rounds h
  · intro hs
    rw [hquot]
    exact div_nonpos_of_nonpos_of_nonneg (value_mul_nonpos hs) (mul_self_nonneg _)
  · intro hs
    rw [hquot]
    exact div_nonneg (value_mul_nonneg hs) (mul_self_nonneg _)
  intro hfin
  congr 1
  rw [compareNearbyScaled_eq (comparable_div hb0 h.1 hfin), toReal_magnitude,
    toReal_multiplyMagnitudes, ← abs_div_mul_abs hb0]
  apply compare_congr
  · exact mul_lt_mul_iff_left₀ hvbpos
  · exact mul_lt_mul_iff_left₀ hvbpos

/-- The nearest square root of a finite value is finite. -/
lemma isFinite_sqrt {zs : Bool} {n : U64} (ha : IsFinite a)
    (h : Rounds .nearestEven √(value a) zs n) : IsFinite n := by
  have hfin := isFinite_iff.mp ha
  have hinf : (1023 * 2 ^ 52 : ℕ) < infMag := by norm_num [infMag]
  have hone : grid (1023 * 2 ^ 52 : ℕ) = 1 := by
    rw [grid_natCast, gridVal_binade]
    norm_num
  -- the root is at most the larger of the operand and one
  have hle : √(value a) ≤ grid (max (ordinal a) (1023 * 2 ^ 52 : ℕ)) := by
    have h1 : value a ≤ grid (max (ordinal a) (1023 * 2 ^ 52 : ℕ)) :=
      grid_strictMono.monotone (le_max_left _ _)
    have h2 : 1 ≤ grid (max (ordinal a) (1023 * 2 ^ 52 : ℕ)) := by
      rw [← hone]
      exact grid_strictMono.monotone (le_max_right _ _)
    rw [Real.sqrt_le_left (by linarith)]
    nlinarith
  have hupper := h.ordinal_le (by omega) (by omega) hle
  have hlower := h.le_ordinal (z := 0) (by omega) (by omega)
    (by rw [grid_zero]; exact Real.sqrt_nonneg _)
  rw [isFinite_iff]
  omega

lemma abs_sqrt_mul_abs_sqrt (ha0 : 0 ≤ value a) : |√(value a)| * |√(value a)| = |value a| := by
  rw [← abs_mul, Real.mul_self_sqrt ha0]

lemma comparable_sqrt {n : U64} (ha0 : 0 ≤ value a) (hn : RoundsNearest √(value a) n)
    (hfin : IsFinite n) :
    Comparable (magnitude a) (multiplyMagnitudes (magnitude n) (magnitude n)) := by
  intro _ hrhs
  have hsquare := abs_sqrt_mul_abs_sqrt ha0
  have hcoeff : (magnitude n).coefficient ≠ 0 := by
    intro h0
    simp [multiplyMagnitudes, h0] at hrhs
  rw [toReal_magnitude, toReal_multiplyMagnitudes, scale_multiplyMagnitudes]
  constructor
  · have hlt := mul_lt_mul'' (abs_lt_of_nearest hn hfin) (abs_lt_of_nearest hn hfin)
      (abs_nonneg _) (abs_nonneg _)
    rw [hsquare] at hlt
    have hpos : (0 : ℝ) < 2 ^ (magnitude n).scale * 2 ^ (magnitude n).scale := by positivity
    linarith
  · have hle := abs_value_le_two_mul hn hfin hcoeff
    have hle' := mul_le_mul hle hle (abs_nonneg _) (by positivity)
    have hlt := abs_value_lt a
    have hpos : (0 : ℝ) < 2 ^ (magnitude a).scale := by positivity
    linarith

lemma value_nonneg_of_radicand (hsign : a.msb = false ∨ mag a = 0) : 0 ≤ value a := by
  rcases hsign with hs | hz
  · exact value_nonneg_of_msb hs
  · exact (value_eq_zero_iff.mpr hz).ge

/-- The root is never formed: squaring the nearest one orders the operand as the exact root. -/
theorem sqrt_rounds (ha : IsFinite a) (hsign : a.msb = false ∨ mag a = 0)
    (h : Rounds .nearestEven √(value a) a.msb (ops.sqrt a)) (mode : RoundingMode) :
    Rounds mode.toMode √(value a) a.msb (sqrt ops a mode) := by
  by_cases hmode : mode = .nearest
  · rw [sqrt, if_pos hmode, hmode]
    exact h
  have ha0 := value_nonneg_of_radicand hsign
  have hfin := isFinite_sqrt ha h
  have hroot0 := Real.sqrt_nonneg (value a)
  have hn0 : 0 ≤ value (ops.sqrt a) := value_nonneg_of_rounds h hroot0
  simp only [sqrt, if_neg hmode, sqrtInner, isInfinite_eq_false ha, Bool.false_eq_true, if_false]
  have hrel : compareNearbyScaled (magnitude a)
      (multiplyMagnitudes (magnitude (ops.sqrt a)) (magnitude (ops.sqrt a))) =
      compare √(value a) (value (ops.sqrt a)) := by
    rw [compareNearbyScaled_eq (comparable_sqrt ha0 h.1 hfin), toReal_magnitude,
      toReal_multiplyMagnitudes, ← abs_sqrt_mul_abs_sqrt ha0]
    apply compare_congr
    · rw [← sq, ← sq, sq_lt_sq, abs_abs, abs_abs, abs_of_nonneg hroot0, abs_of_nonneg hn0]
    · rw [← sq, ← sq, sq_lt_sq, abs_abs, abs_abs, abs_of_nonneg hroot0, abs_of_nonneg hn0]
  rw [hrel]
  apply applyMode_rounds h hfin
  intro _
  simp

end

/-! ## Sums

On aligned operands, `p` is the one of the larger scale and `r` the other one. -/

section
variable {p r n : U64} {x : ℝ}

/-- The coefficient of `p` at the scale of `r`. -/
def alignedCoefficient (p r : U64) : ℕ :=
  (magnitude p).coefficient * 2 ^ asU32 ((magnitude p).scale - (magnitude r).scale)

lemma asU32_distance (hscale : (magnitude r).scale ≤ (magnitude p).scale) :
    (asU32 ((magnitude p).scale - (magnitude r).scale) : ℤ) =
      (magnitude p).scale - (magnitude r).scale := by
  apply asU32_of_lt (sub_nonneg.mpr hscale)
  have := mag_lt p
  rw [magnitude_eq, magnitude_eq]
  simp only [gridScale]
  omega

lemma alignedCoefficient_toReal (hscale : (magnitude r).scale ≤ (magnitude p).scale) :
    (alignedCoefficient p r : ℝ) * 2 ^ (magnitude r).scale = |value p| := by
  have hd := asU32_distance hscale
  rw [alignedCoefficient, ← toReal_magnitude, Magnitude.toReal]
  set d := asU32 ((magnitude p).scale - (magnitude r).scale)
  rw [show (magnitude p).scale = d + (magnitude r).scale by omega, zpow_add₀ (by norm_num),
    zpow_natCast]
  push_cast
  ring

/-- Up to the alignment bound, the aligned coefficient leaves room for two more. -/
lemma alignedCoefficient_lt
    (hd : asU32 ((magnitude p).scale - (magnitude r).scale) ≤ maxAlignment) :
    alignedCoefficient p r + 2 ^ 54 < 2 ^ 128 := by
  have hcoeff := coefficient_magnitude_lt p
  have hshift : alignedCoefficient p r ≤ (2 ^ 53 - 1) * 2 ^ 75 :=
    Nat.mul_le_mul (by omega) (Nat.pow_le_pow_right (by norm_num) hd)
  exact lt_of_le_of_lt (Nat.add_le_add_right hshift _) (by norm_num)

lemma shl128_distance (hd : asU32 ((magnitude p).scale - (magnitude r).scale) ≤ maxAlignment) :
    shl128 (magnitude p).coefficient (asU32 ((magnitude p).scale - (magnitude r).scale)) =
      alignedCoefficient p r := by
  have hlt := alignedCoefficient_lt hd
  exact shl128_eq (lt_of_le_of_lt hd (by norm_num [maxAlignment]))
    (lt_of_le_of_lt (Nat.le_add_right _ _) hlt)

/-- An operand more than the alignment bound below the other one does not move the nearest
sum off it. -/
lemma value_eq_of_far (hn : RoundsNearest x n) (hfin : IsFinite n) (hx : |x - value p| = |value r|)
    (hpfin : IsFinite p) (hfar : (magnitude r).scale + 75 < (magnitude p).scale) :
    value n = value p := by
  have hnormal : 2 ^ 52 ≤ mag p := by
    rw [magnitude_eq, magnitude_eq] at hfar
    simp only [gridScale] at hfar
    omega
  -- the small operand is below a quarter of the last place of the big one
  have hsmall : 4 * |value r| < 2 ^ (magnitude p).scale := by
    have hlt := abs_value_lt r
    have hle : (2 : ℝ) ^ ((55 : ℕ) + (magnitude r).scale) ≤ 2 ^ (magnitude p).scale :=
      zpow_le_zpow_right₀ (by norm_num) (by push_cast; omega)
    rw [zpow_add₀ (by norm_num), zpow_natCast] at hle
    linarith
  have hdist := hn.le_dist hfin hpfin
  rw [hx] at hdist
  have hnear : |value n - value p| ≤ 2 * |value r| := by
    have := abs_sub_le (value n) x (value p)
    rw [abs_sub_comm (value n) x, hx] at this
    linarith
  have hulp := scale_magnitude_ulp p
  by_contra hne
  have hhalf : (2 : ℝ) ^ (magnitude p).scale / 2 ≤ |value n - value p| := by
    by_cases hmag : mag n = mag p
    · -- opposite values are even farther apart
      have hopp : value n = -value p := by
        rcases abs_eq_abs.mp (show |value n| = |value p| by rw [abs_value, abs_value, hmag]) with h | h
        · exact absurd h hne
        · exact h
      have hle : (2 : ℝ) ^ (magnitude p).scale ≤ |value p| := by
        rw [← toReal_magnitude]
        apply Magnitude.le_toReal
        rw [ne_eq, coefficient_magnitude_eq_zero]
        omega
      rw [hopp, show -value p - value p = -(2 * value p) by ring, abs_neg, abs_mul,
        abs_of_pos (by norm_num : (0 : ℝ) < 2)]
      have hpos : (0 : ℝ) < 2 ^ (magnitude p).scale := by positivity
      linarith
    · rw [← hulp]
      refine le_trans (half_ulp_le_abs_sub hnormal hmag) ?_
      rw [← abs_value, ← abs_value]
      exact abs_abs_sub_abs_le _ _
  linarith

lemma abs_add_of_same_sign (hs : p.msb = r.msb) :
    |value p + value r| = |value p| + |value r| := by
  rw [abs_add_eq_add_abs_iff]
  cases h : p.msb
  · exact Or.inl ⟨value_nonneg_of_msb h, value_nonneg_of_msb (hs ▸ h)⟩
  · exact Or.inr ⟨value_nonpos_of_msb h, value_nonpos_of_msb (hs ▸ h)⟩

lemma abs_add_of_opposite_sign (hs : p.msb ≠ r.msb) (hmag : mag r ≤ mag p) :
    |value p + value r| = |value p| - |value r| := by
  have hle : |value r| ≤ |value p| := by
    rw [abs_value, abs_value]
    exact gridVal_strictMono.monotone hmag
  cases h : p.msb
  · have hr : r.msb = true := by simpa [h] using hs
    have hp0 := value_nonneg_of_msb h
    have hr0 := value_nonpos_of_msb hr
    rw [abs_of_nonneg hp0, abs_of_nonpos hr0] at hle ⊢
    rw [abs_of_nonneg (by linarith)]
    ring
  · have hr : r.msb = false := by simpa [h] using hs
    have hp0 := value_nonpos_of_msb h
    have hr0 := value_nonneg_of_msb hr
    rw [abs_of_nonpos hp0, abs_of_nonneg hr0] at hle ⊢
    rw [abs_of_nonpos (by linarith)]
    ring

/-- The magnitude of a nearest sum is at most that of the exact sum and the operand that the
other one is a candidate for. -/
lemma abs_nearest_sum_le (hn : RoundsNearest (value p + value r) n) (hfin : IsFinite n)
    (hpfin : IsFinite p) : |value n| ≤ |value p + value r| + |value r| := by
  have hdist := hn.le_dist hfin hpfin
  rw [add_sub_cancel_left] at hdist
  have := abs_sub_abs_le_abs_sub (value n) (value p + value r)
  rw [abs_sub_comm] at this
  linarith

lemma lt_scale_of_not_distance (hscale : (magnitude r).scale ≤ (magnitude p).scale)
    (hd : ¬asU32 ((magnitude p).scale - (magnitude r).scale) ≤ maxAlignment) :
    (magnitude r).scale + 75 < (magnitude p).scale := by
  have hu32 := asU32_distance hscale
  rw [maxAlignment] at hd
  omega

/-! ### Operands of one sign -/

/-- The exact sum of the magnitudes, as `add_inner` aligns it. -/
def alignedSum (p r : U64) : Magnitude :=
  { coefficient := alignedCoefficient p r + (magnitude r).coefficient
    scale := (magnitude r).scale }

lemma alignedSum_lt (hd : asU32 ((magnitude p).scale - (magnitude r).scale) ≤ maxAlignment) :
    (alignedSum p r).coefficient < 2 ^ 128 := by
  have hlt := alignedCoefficient_lt hd
  have hcoeff := coefficient_magnitude_lt r
  simp only [alignedSum]
  omega

lemma toReal_alignedSum (hs : p.msb = r.msb) (hscale : (magnitude r).scale ≤ (magnitude p).scale) :
    (alignedSum p r).toReal = |value p + value r| := by
  rw [abs_add_of_same_sign hs, ← alignedCoefficient_toReal hscale, ← toReal_magnitude,
    Magnitude.toReal, Magnitude.toReal, alignedSum]
  push_cast
  ring

lemma comparable_alignedSum (hpfin : IsFinite p) (hs : p.msb = r.msb)
    (hscale : (magnitude r).scale ≤ (magnitude p).scale)
    (hd : asU32 ((magnitude p).scale - (magnitude r).scale) ≤ maxAlignment)
    (hn : RoundsNearest (value p + value r) n) (hfin : IsFinite n) :
    Comparable (alignedSum p r) (magnitude n) := by
  apply comparable_nearest hn hfin (toReal_alignedSum hs hscale)
  intro _
  have hle := abs_nearest_sum_le hn hfin hpfin
  have hsmall := abs_value_lt r
  have hpos : (0 : ℝ) < 2 ^ (magnitude r).scale := by positivity
  have hlt : ((alignedCoefficient p r : ℝ) + 2 ^ 54) * 2 ^ (magnitude r).scale
      < 2 ^ 128 * 2 ^ (magnitude r).scale :=
    mul_lt_mul_of_pos_right (by exact_mod_cast alignedCoefficient_lt hd) hpos
  rw [abs_add_of_same_sign hs, ← alignedCoefficient_toReal hscale] at hle
  simp only [alignedSum]
  linarith

/-- The aligned sum decides, or the tail of the smaller operand does. -/
lemma sameSign_relation (hr : mag r ≠ 0) (hpfin : IsFinite p) (hs : p.msb = r.msb)
    (hscale : (magnitude r).scale ≤ (magnitude p).scale)
    (hn : RoundsNearest (value p + value r) n) (hfin : IsFinite n) :
    (if asU32 ((magnitude p).scale - (magnitude r).scale) ≤ maxAlignment then
      compareNearbyScaled
        { coefficient :=
            (shl128 (magnitude p).coefficient (asU32 ((magnitude p).scale - (magnitude r).scale)) +
              (magnitude r).coefficient) % 2 ^ 128
          scale := (magnitude r).scale } (magnitude n)
    else .gt) = compare |value p + value r| |value n| := by
  split
  · rename_i hd
    have hsum := alignedSum_lt hd
    simp only [alignedSum] at hsum
    rw [shl128_distance hd, Nat.mod_eq_of_lt hsum]
    exact compareNearbyScaled_nearest (toReal_alignedSum hs hscale)
      (comparable_alignedSum hpfin hs hscale hd hn hfin)
  · rename_i hd
    have hr0 : 0 < |value r| := abs_pos.mpr (mt value_eq_zero_iff.mp hr)
    have hv := value_eq_of_far hn hfin (by rw [add_sub_cancel_left]) hpfin
      (lt_scale_of_not_distance hscale hd)
    rw [eq_comm, compare_gt_iff_gt, abs_add_of_same_sign hs, hv]
    linarith

/-! ### Operands of opposite signs -/

/-- The exact difference of the magnitudes, as `add_inner` aligns it. -/
def alignedDifference (p r : U64) : Magnitude :=
  { coefficient := alignedCoefficient p r - (magnitude r).coefficient
    scale := (magnitude r).scale }

lemma scale_mono (hmag : mag r ≤ mag p) : (magnitude r).scale ≤ (magnitude p).scale := by
  rw [magnitude_eq, magnitude_eq]
  exact gridScale_mono hmag

/-- The subtraction of the aligned coefficients does not borrow. -/
lemma coefficient_le_alignedCoefficient (hmag : mag r ≤ mag p) :
    (magnitude r).coefficient ≤ alignedCoefficient p r := by
  have h : |value r| ≤ |value p| := by
    rw [abs_value, abs_value]
    exact gridVal_strictMono.monotone hmag
  rw [← toReal_magnitude, Magnitude.toReal, ← alignedCoefficient_toReal (scale_mono hmag)] at h
  exact_mod_cast le_of_mul_le_mul_right h (by positivity)

lemma toReal_alignedDifference (hs : p.msb ≠ r.msb) (hmag : mag r ≤ mag p) :
    (alignedDifference p r).toReal = |value p + value r| := by
  rw [abs_add_of_opposite_sign hs hmag, ← alignedCoefficient_toReal (scale_mono hmag),
    ← toReal_magnitude, Magnitude.toReal, Magnitude.toReal, alignedDifference,
    Nat.cast_sub (coefficient_le_alignedCoefficient hmag)]
  ring

lemma comparable_alignedDifference (hpfin : IsFinite p) (hs : p.msb ≠ r.msb)
    (hmag : mag r ≤ mag p)
    (hd : asU32 ((magnitude p).scale - (magnitude r).scale) ≤ maxAlignment)
    (hn : RoundsNearest (value p + value r) n) (hfin : IsFinite n) :
    Comparable (alignedDifference p r) (magnitude n) := by
  apply comparable_nearest hn hfin (toReal_alignedDifference hs hmag)
  intro _
  have hle := abs_nearest_sum_le hn hfin hpfin
  have hpos : (0 : ℝ) < 2 ^ (magnitude r).scale := by positivity
  have hlt := alignedCoefficient_lt hd
  have hlt' : (alignedCoefficient p r : ℝ) * 2 ^ (magnitude r).scale
      < 2 ^ 128 * 2 ^ (magnitude r).scale :=
    mul_lt_mul_of_pos_right (by exact_mod_cast (by omega : alignedCoefficient p r < 2 ^ 128)) hpos
  rw [abs_add_of_opposite_sign hs hmag, ← alignedCoefficient_toReal (scale_mono hmag)] at hle
  simp only [alignedDifference]
  linarith

/-- The aligned difference decides, or the tail of the smaller operand does. -/
lemma oppositeSign_relation (hr : mag r ≠ 0) (hpfin : IsFinite p) (hs : p.msb ≠ r.msb)
    (hmag : mag r ≤ mag p) (hn : RoundsNearest (value p + value r) n) (hfin : IsFinite n) :
    (if asU32 ((magnitude p).scale - (magnitude r).scale) ≤ maxAlignment then
      compareNearbyScaled
        { coefficient :=
            (shl128 (magnitude p).coefficient (asU32 ((magnitude p).scale - (magnitude r).scale)) +
              (2 ^ 128 - (magnitude r).coefficient)) % 2 ^ 128
          scale := (magnitude r).scale } (magnitude n)
    else .lt) = compare |value p + value r| |value n| := by
  split
  · rename_i hd
    have hlt := alignedCoefficient_lt hd
    have hle := coefficient_le_alignedCoefficient hmag
    rw [shl128_distance hd, show alignedCoefficient p r + (2 ^ 128 - (magnitude r).coefficient) =
        (alignedCoefficient p r - (magnitude r).coefficient) + 2 ^ 128 by omega,
      Nat.add_mod_right, Nat.mod_eq_of_lt (by omega)]
    exact compareNearbyScaled_nearest (toReal_alignedDifference hs hmag)
      (comparable_alignedDifference hpfin hs hmag hd hn hfin)
  · rename_i hd
    have hr0 : 0 < |value r| := abs_pos.mpr (mt value_eq_zero_iff.mp hr)
    have hv := value_eq_of_far hn hfin (by rw [add_sub_cancel_left]) hpfin
      (lt_scale_of_not_distance (scale_mono hmag) hd)
    rw [eq_comm, compare_lt_iff_lt, abs_add_of_opposite_sign hs hmag, hv]
    linarith

end

section
variable {ops : Nearest} {a b n : U64} {zs : Bool}

lemma value_eq_of_exact {c : U64} (hn : RoundsNearest (value c) n) (hfin : IsFinite n)
    (hc : IsFinite c) : value n = value c := by
  have h := hn.le_dist hfin hc
  rw [sub_self, abs_zero] at h
  linarith [abs_eq_zero.mp (le_antisymm h (abs_nonneg _))]

/-- `add_inner` orders the exact sum and a finite nearest one, and knows the sign of a sum that
is not representable. -/
theorem addRelation_spec (ha : IsFinite a) (hb : IsFinite b)
    (hn : Rounds .nearestEven (value a + value b) zs n) (hfin : IsFinite n) :
    (addRelation a b n).1 = compare (value a + value b) (value n) ∧
      (value a + value b ≠ value n →
        ((addRelation a b n).2 = true ↔ value a + value b < 0)) := by
  by_cases hzero : (magnitude a).coefficient = 0 ∨ (magnitude b).coefficient = 0
  · -- one operand is the sum
    have hv : value n = value a + value b := by
      have hnear := hn.1
      rcases hzero with h | h
      · have h0 := value_eq_zero_iff.mpr (coefficient_magnitude_eq_zero.mp h)
        rw [h0, zero_add] at hnear ⊢
        exact value_eq_of_exact hnear hfin hb
      · have h0 := value_eq_zero_iff.mpr (coefficient_magnitude_eq_zero.mp h)
        rw [h0, add_zero] at hnear ⊢
        exact value_eq_of_exact hnear hfin ha
    rw [addRelation, if_pos hzero, hv]
    exact ⟨(compare_eq_iff_eq.mpr rfl).symm, fun h => absurd rfl h⟩
  have ha0 : mag a ≠ 0 := fun h => hzero (Or.inl (coefficient_magnitude_eq_zero.mpr h))
  have hb0 : mag b ≠ 0 := fun h => hzero (Or.inr (coefficient_magnitude_eq_zero.mpr h))
  have hcomm : RoundsNearest (value b + value a) n := by
    rw [add_comm]
    exact hn.1
  -- a magnitude relation read with the sign of the sum settles both parts
  have finish : ∀ {rel : Ordering} {neg : Bool},
      rel = compare |value a + value b| |value n| →
      (neg = true → value a + value b ≤ 0) → (neg = false → 0 ≤ value a + value b) →
      value a + value b ≠ 0 →
      reverseIfNegative rel neg = compare (value a + value b) (value n) ∧
        (value a + value b ≠ value n → (neg = true ↔ value a + value b < 0)) := by
    intro rel neg hrel hneg hpos hne
    constructor
    · rw [hrel]
      apply reverseIfNegative_compare
      · exact fun h => ⟨hneg h, value_nonpos_of_rounds hn (hneg h)⟩
      · exact fun h => ⟨hpos h, value_nonneg_of_rounds hn (hpos h)⟩
    · intro _
      constructor
      · exact fun h => lt_of_le_of_ne (hneg h) hne
      · intro h
        by_contra hcon
        exact absurd (hpos (by simpa using hcon)) (not_le.mpr h)
  have hva : 0 < |value a| := abs_pos.mpr (mt value_eq_zero_iff.mp ha0)
  have hvb : 0 < |value b| := abs_pos.mpr (mt value_eq_zero_iff.mp hb0)
  by_cases hs : a.msb = b.msb
  · have hx0 : value a + value b ≠ 0 := by
      intro h0
      have h := abs_add_of_same_sign hs
      rw [h0, abs_zero] at h
      linarith
    simp only [addRelation, if_neg hzero, and_signMask_bne, if_pos hs]
    apply finish _ _ _ hx0
    · by_cases hscale : (magnitude a).scale ≥ (magnitude b).scale
      · simp only [if_pos hscale]
        exact sameSign_relation hb0 ha hs hscale hn.1 hfin
      · simp only [if_neg hscale]
        rw [add_comm (value a)]
        exact sameSign_relation ha0 hb hs.symm (not_le.mp hscale).le hcomm hfin
    · intro h
      exact add_nonpos (value_nonpos_of_msb h) (value_nonpos_of_msb (hs ▸ h))
    · intro h
      exact add_nonneg (value_nonneg_of_msb h) (value_nonneg_of_msb (hs ▸ h))
  simp only [addRelation, if_neg hzero, and_signMask_bne, if_neg hs, toNat_and_absMask]
  rcases lt_trichotomy (mag a) (mag b) with hlt | heq | hgt
  · have habs := abs_add_of_opposite_sign (Ne.symm hs) hlt.le
    rw [compare_lt_iff_lt.mpr hlt]
    simp only [reduceCtorEq, if_false]
    have hsum := abs_value b ▸ abs_value a ▸ gridVal_strictMono (t := 52) (q := -1074) hlt
    apply finish
    · rw [add_comm (value a)]
      exact oppositeSign_relation ha0 hb (Ne.symm hs) hlt.le hcomm hfin
    · intro h
      have ha' := value_nonneg_of_msb (show a.msb = false by simpa [h] using hs)
      have hb' := value_nonpos_of_msb h
      rw [abs_of_nonneg ha', abs_of_nonpos hb'] at hsum
      linarith
    · intro h
      have ha' := value_nonpos_of_msb (show a.msb = true by simpa [h] using hs)
      have hb' := value_nonneg_of_msb h
      rw [abs_of_nonpos ha', abs_of_nonneg hb'] at hsum
      linarith
    · intro h0
      rw [add_comm, h0, abs_zero] at habs
      linarith
  · -- equal magnitudes cancel exactly
    have hx : value a + value b = 0 := by
      have hopp : b = negate a := by
        apply eq_of_msb_mag
        · rw [msb_negate]
          cases h : a.msb <;> simpa [h] using hs
        · rw [mag_negate, heq]
      rw [hopp, value_negate, add_neg_cancel]
    have hv : value n = 0 := le_antisymm (value_nonpos_of_rounds hn hx.le)
      (value_nonneg_of_rounds hn hx.ge)
    rw [compare_eq_iff_eq.mpr heq, hx, hv]
    exact ⟨(compare_eq_iff_eq.mpr rfl).symm, fun h => absurd rfl h⟩
  · have habs := abs_add_of_opposite_sign hs hgt.le
    rw [compare_gt_iff_gt.mpr hgt]
    simp only [if_true]
    have hsum := abs_value a ▸ abs_value b ▸ gridVal_strictMono (t := 52) (q := -1074) hgt
    apply finish
    · exact oppositeSign_relation hb0 ha hs hgt.le hn.1 hfin
    · intro h
      have hb' := value_nonneg_of_msb (show b.msb = false by simpa [h] using hs)
      have ha' := value_nonpos_of_msb h
      rw [abs_of_nonpos ha', abs_of_nonneg hb'] at hsum
      linarith
    · intro h
      have hb' := value_nonpos_of_msb (show b.msb = true by simpa [h] using hs)
      have ha' := value_nonneg_of_msb h
      rw [abs_of_nonneg ha', abs_of_nonpos hb'] at hsum
      linarith
    · intro h0
      rw [h0, abs_zero] at habs
      linarith

/-- The sign a zero result would have does not matter for a value different from zero. -/
lemma Rounds.of_ne_zero {m : Mode} {x : ℝ} {zs' : Bool} (h : Rounds m x zs n) (hx : x ≠ 0) :
    Rounds m x zs' n := by
  refine ⟨h.1, ?_⟩
  rw [h.2]
  simp [hx]

/-- `add_inner` rounds the exact sum when the nearest helper does. -/
theorem addInner_rounds (ha : IsFinite a) (hb : IsFinite b)
    (h : Rounds .nearestEven (value a + value b) (sumZeroSign .nearestEven a b) (ops.add a b))
    (mode : RoundingMode) :
    Rounds mode.toMode (value a + value b) (sumZeroSign mode.toMode a b)
      (addInner ops a b mode) := by
  simp only [addInner, isInfinite_eq_false ha, isInfinite_eq_false hb, Bool.or_self,
    Bool.false_eq_true, if_false]
  by_cases hfin : IsFinite (ops.add a b)
  · obtain ⟨hrel, hsign⟩ := addRelation_spec ha hb h hfin
    have hzero : value a + value b = 0 → value (ops.add a b) = 0 := fun hx =>
      le_antisymm (value_nonpos_of_rounds h hx.le) (value_nonneg_of_rounds h hx.ge)
    simp only [directedOverflow_of_isFinite hfin, hrel]
    split
    · -- an exact cancellation under rounding down
      rename_i hcancel
      obtain ⟨hmag, heq, hopp, rfl⟩ := hcancel
      rw [compare_eq_iff_eq] at heq
      have hv := value_eq_zero_iff.mpr ((and_absMask_eq_zero _).mp hmag)
      have ho : ordinal signMask = ordinal (ops.add a b) := by
        rw [← value_eq_iff, hv]
        exact value_eq_zero_iff.mpr (by decide)
      have hs : a.msb ≠ b.msb := by
        intro hs
        rw [ne_eq, and_signMask_eq_zero, BitVec.msb_xor, hs, Bool.xor_self] at hopp
        exact hopp rfl
      have hdown := RoundsNearest.roundsDown h.1 hfin heq.ge
      refine ⟨?_, ?_⟩
      · rw [RoundingMode.toMode, RoundsValue, roundsDown_iff, value, ho]
        exact roundsDown_iff.mp hdown
      · rw [sumZeroSign, if_neg hs, heq, hv]
        exact ⟨fun _ => Or.inr ⟨rfl, rfl⟩, fun _ => by decide⟩
    · rename_i hother
      have hres := applyMode_rounds h hfin hsign mode
      by_cases hx : value a + value b = 0
      · -- the sign of the zero is the one of the nearest helper
        have hv := hzero hx
        have hzs : sumZeroSign mode.toMode a b = sumZeroSign .nearestEven a b := by
          unfold sumZeroSign
          split
          · rfl
          · rename_i hs
            have hmode : mode ≠ .down := by
              intro hdown
              refine hother ⟨(and_absMask_eq_zero _).mpr (value_eq_zero_iff.mp hv), ?_, ?_, hdown⟩
              · rw [compare_eq_iff_eq, hx, hv]
              · rw [ne_eq, and_signMask_eq_zero, BitVec.msb_xor]
                simpa using hs
            cases mode <;> first | rfl | exact absurd rfl hmode
        rw [hzs]
        exact hres
      · exact Rounds.of_ne_zero hres hx
  · obtain ⟨r, hr, hrounds⟩ := directedOverflow_rounds h (h.isInf hfin) mode
    have hx : value a + value b ≠ 0 := by
      intro hx
      have hbound := h.1
      have hpos := overflowBound_pos
      rw [RoundsValue, RoundsNearest, hx, abs_zero, if_neg (not_le.mpr hpos)] at hbound
      exact hfin hbound.1
    simp only [hr]
    exact Rounds.of_ne_zero hrounds hx

end

/-! ## The operations as functions

The nearest helpers are the only thing the operations take from outside; what they are
assumed to return is the binary64 result under round-to-nearest-even. -/

/-- `nearest::add` and `nearest::sub` round sums and differences of finite operands. -/
structure Nearest.RoundsSums (ops : Nearest) : Prop where
  add : ∀ {a b}, IsFinite a → IsFinite b → ops.add a b =
    round .nearestEven (value a + value b) (sumZeroSign .nearestEven a b)
  sub : ∀ {a b}, IsFinite a → IsFinite b → ops.sub a b =
    round .nearestEven (value a - value b) (sumZeroSign .nearestEven a (negate b))

/-- `nearest::mul`, `nearest::div` and `nearest::sqrt` round products, quotients by nonzero
divisors, and roots of operands that are not negative. -/
structure Nearest.RoundsProducts (ops : Nearest) : Prop where
  mul : ∀ {a b}, IsFinite a → IsFinite b → ops.mul a b =
    round .nearestEven (value a * value b) (a.msb ^^ b.msb)
  div : ∀ {a b}, IsFinite a → IsFinite b → mag b ≠ 0 → ops.div a b =
    round .nearestEven (value a / value b) (a.msb ^^ b.msb)
  sqrt : ∀ {a}, IsFinite a → a.msb = false ∨ mag a = 0 → ops.sqrt a =
    round .nearestEven √(value a) a.msb

/-- Helpers that round to nearest by definition. -/
noncomputable def roundingNearest : Nearest where
  add a b := round .nearestEven (value a + value b) (sumZeroSign .nearestEven a b)
  sub a b := round .nearestEven (value a - value b) (sumZeroSign .nearestEven a (negate b))
  mul a b := round .nearestEven (value a * value b) (a.msb ^^ b.msb)
  div a b := round .nearestEven (value a / value b) (a.msb ^^ b.msb)
  sqrt a := round .nearestEven √(value a) a.msb

lemma roundsSums_roundingNearest : roundingNearest.RoundsSums :=
  ⟨fun _ _ => rfl, fun _ _ => rfl⟩

lemma roundsProducts_roundingNearest : roundingNearest.RoundsProducts :=
  ⟨fun _ _ => rfl, fun _ _ _ => rfl, fun _ _ => rfl⟩

section
variable {ops : Nearest}

theorem add_eq_of_roundsSums (h : ops.RoundsSums) {a b : U64} (ha : IsFinite a)
    (hb : IsFinite b) (mode : RoundingMode) :
    add ops a b mode = round mode.toMode (value a + value b) (sumZeroSign mode.toMode a b) := by
  have hn := rounds_iff.mpr (h.add ha hb)
  rw [add]
  split
  · rename_i hmode
    rw [hmode]
    exact rounds_iff.mp hn
  · exact rounds_iff.mp (addInner_rounds ha hb hn mode)

theorem sub_eq_of_roundsSums (h : ops.RoundsSums) {a b : U64} (ha : IsFinite a)
    (hb : IsFinite b) (mode : RoundingMode) :
    sub ops a b mode =
      round mode.toMode (value a - value b) (sumZeroSign mode.toMode a (negate b)) := by
  have hb' : IsFinite (negate b) := isFinite_negate.mpr hb
  rw [sub]
  split
  · rename_i hmode
    rw [hmode]
    exact h.sub ha hb
  · rw [xor_signMask]
    have hn := addInner_rounds ha hb' (rounds_iff.mpr (h.add ha hb')) mode
    rw [value_negate, ← sub_eq_add_neg] at hn
    exact rounds_iff.mp hn

/-- Sums and differences of finite operands are correctly rounded in every mode. -/
theorem add_sub_eq_round (h : ops.RoundsSums) {a b : U64} (ha : IsFinite a) (hb : IsFinite b)
    (mode : RoundingMode) :
    add ops a b mode = round mode.toMode (value a + value b) (sumZeroSign mode.toMode a b) ∧
      sub ops a b mode =
        round mode.toMode (value a - value b) (sumZeroSign mode.toMode a (negate b)) :=
  ⟨add_eq_of_roundsSums h ha hb mode, sub_eq_of_roundsSums h ha hb mode⟩

/-- One and the smallest subnormal, 1074 binades apart, under rounding up. -/
theorem add_sub_eq_round_one_minSubnormal :
    add roundingNearest 0x3ff0000000000000#64 1#64 .up =
        round .up (value 0x3ff0000000000000#64 + value 1#64)
          (sumZeroSign .up 0x3ff0000000000000#64 1#64) ∧
      sub roundingNearest 0x3ff0000000000000#64 1#64 .up =
        round .up (value 0x3ff0000000000000#64 - value 1#64)
          (sumZeroSign .up 0x3ff0000000000000#64 (negate 1#64)) :=
  add_sub_eq_round roundsSums_roundingNearest (by decide) (by decide) .up

theorem mul_eq_of_roundsProducts (h : ops.RoundsProducts) {a b : U64} (ha : IsFinite a)
    (hb : IsFinite b) (mode : RoundingMode) :
    mul ops a b mode = round mode.toMode (value a * value b) (a.msb ^^ b.msb) :=
  rounds_iff.mp (mul_rounds ha hb (rounds_iff.mpr (h.mul ha hb)) mode)

theorem div_eq_of_roundsProducts (h : ops.RoundsProducts) {a b : U64} (ha : IsFinite a)
    (hb : IsFinite b) (hb0 : mag b ≠ 0) (mode : RoundingMode) :
    div ops a b mode = round mode.toMode (value a / value b) (a.msb ^^ b.msb) :=
  rounds_iff.mp (div_rounds ha hb hb0 (rounds_iff.mpr (h.div ha hb hb0)) mode)

theorem sqrt_eq_of_roundsProducts (h : ops.RoundsProducts) {a : U64} (ha : IsFinite a)
    (hsign : a.msb = false ∨ mag a = 0) (mode : RoundingMode) :
    sqrt ops a mode = round mode.toMode √(value a) a.msb :=
  rounds_iff.mp (sqrt_rounds ha hsign (rounds_iff.mpr (h.sqrt ha hsign)) mode)

/-- Products, quotients and roots of finite operands are correctly rounded in every mode. -/
theorem mul_div_sqrt_eq_round (h : ops.RoundsProducts) (mode : RoundingMode) :
    (∀ a b, IsFinite a → IsFinite b →
      mul ops a b mode = round mode.toMode (value a * value b) (a.msb ^^ b.msb)) ∧
    (∀ a b, IsFinite a → IsFinite b → mag b ≠ 0 →
      div ops a b mode = round mode.toMode (value a / value b) (a.msb ^^ b.msb)) ∧
    (∀ a, IsFinite a → a.msb = false ∨ mag a = 0 →
      sqrt ops a mode = round mode.toMode √(value a) a.msb) :=
  ⟨fun _ _ ha hb => mul_eq_of_roundsProducts h ha hb mode,
    fun _ _ ha hb hb0 => div_eq_of_roundsProducts h ha hb hb0 mode,
    fun _ ha hsign => sqrt_eq_of_roundsProducts h ha hsign mode⟩

/-- A product that underflows, a quotient of subnormals and an irrational root, rounded down. -/
theorem mul_div_sqrt_eq_round_down :
    mul roundingNearest 1#64 1#64 .down = round .down (value 1#64 * value 1#64) false ∧
      div roundingNearest 1#64 3#64 .down = round .down (value 1#64 / value 3#64) false ∧
      sqrt roundingNearest 0x4000000000000000#64 .down =
        round .down √(value 0x4000000000000000#64) false := by
  obtain ⟨hmul, hdiv, hsqrt⟩ := mul_div_sqrt_eq_round roundsProducts_roundingNearest .down
  refine ⟨?_, ?_, ?_⟩
  · exact hmul 1#64 1#64 (by decide) (by decide)
  · exact hdiv 1#64 3#64 (by decide) (by decide) (by decide)
  · exact hsqrt 0x4000000000000000#64 (by decide) (Or.inl (by decide))

end

end RandomXSp1.SoftFp
