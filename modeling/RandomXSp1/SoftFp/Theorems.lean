import RandomXSp1.Ieee.RoundingFunction
import RandomXSp1.SoftFp.Basic

/-!
# Directed rounding in `randomx-softfp` is correct

If the nearest-even helpers return the rounded result, so do `add`, `sub`, `mul`, `div` and
`sqrt` in every mode. The integer comparison of each operation decides the order of the
exact result and the nearest one (`compareNearbyScaled_eq`): no shift leaves `u128`, because
the two are within a factor of two of each other. From that order `applyMode` moves to the
neighbour on the right side (`applyMode_rounds`).
-/

namespace RandomXSp1.SoftFp

open Ieee

/-- The rounding-direction attribute an `fprc` value selects. -/
def RoundingMode.toMode : RoundingMode → Mode
  | .nearest => .nearestEven
  | .down => .down
  | .up => .up
  | .towardZero => .towardZero

/-! ## Masks -/

/-- The masks of the source, in terms of sign and magnitude. -/
lemma toNat_and_absMask (b : U64) : (b &&& absMask).toNat = mag b := by
  rw [BitVec.toNat_and, show absMask.toNat = 2 ^ 63 - 1 by decide, Nat.and_two_pow_sub_one_eq_mod,
    mag]

lemma and_absMask_eq_zero (b : U64) : b &&& absMask = 0 ↔ mag b = 0 := by
  rw [← toNat_and_absMask, ← BitVec.toNat_inj]
  rfl

lemma and_absMask_eq_expMask (b : U64) : b &&& absMask = expMask ↔ IsInf b := by
  rw [IsInf, ← toNat_and_absMask, ← BitVec.toNat_inj]
  rfl

lemma and_signMask_eq_zero (b : U64) : b &&& signMask = 0 ↔ b.msb = false := by
  constructor
  · intro h
    have := congrArg BitVec.msb h
    simpa [show signMask.msb = true by decide] using this
  · intro h
    ext i hi
    have hmask : signMask.getLsbD i = decide (i = 63) := by
      simp only [signMask]
      interval_cases i <;> decide
    rw [BitVec.getElem_and, ← BitVec.getLsbD_eq_getElem, ← BitVec.getLsbD_eq_getElem, hmask]
    by_cases h63 : i = 63
    · subst h63
      rw [BitVec.msb_eq_getLsbD_last] at h
      simpa using h
    · simp [h63]

lemma and_signMask_ne_zero {b : U64} (h : b.msb = true) : ¬b &&& signMask = 0 := by
  rw [and_signMask_eq_zero, h]
  decide

lemma and_signMask_bne (b : U64) : (b &&& signMask != 0) = b.msb := by
  have h := and_signMask_eq_zero b
  cases hs : b.msb
  · rw [h.mpr hs]
    rfl
  · rw [bne_iff_ne]
    intro hz
    rw [h.mp hz] at hs
    contradiction

/-- Flipping the sign bit negates. -/
lemma xor_signMask (b : U64) : b ^^^ signMask = negate b := rfl

lemma isInfinite_eq_false {b : U64} (h : IsFinite b) : isInfinite b = false := by
  rw [isInfinite, beq_eq_false_iff_ne, ne_eq, and_absMask_eq_expMask]
  exact h.not_isInf

/-! ## Magnitudes -/

/-- The real number a magnitude denotes. -/
noncomputable def Magnitude.toReal (m : Magnitude) : ℝ := m.coefficient * 2 ^ m.scale

/-- The exponent field. -/
lemma toNat_exponent (b : U64) : ((b &&& expMask) >>> 52).toNat = mag b / 2 ^ 52 := by
  have h : (b &&& expMask) >>> 52 = (b >>> 52) &&& 0x7ff#64 := by
    rw [BitVec.ushiftRight_and_distrib]
    rfl
  rw [h, BitVec.toNat_and, show (0x7ff#64).toNat = 2 ^ 11 - 1 by decide,
    Nat.and_two_pow_sub_one_eq_mod, BitVec.toNat_ushiftRight, Nat.shiftRight_eq_div_pow, mag]
  omega

/-- The fraction field. -/
lemma toNat_fraction (b : U64) : (b &&& fracMask).toNat = mag b % 2 ^ 52 := by
  rw [BitVec.toNat_and, show fracMask.toNat = 2 ^ 52 - 1 by decide,
    Nat.and_two_pow_sub_one_eq_mod, mag]
  omega

/-- `magnitude` reads the coefficient and the scale of the pattern off the binary64 grid. -/
theorem magnitude_eq (b : U64) :
    magnitude b = ⟨gridCoeff 52 (mag b), gridScale 52 (-1074) (mag b)⟩ := by
  have hor : ((b &&& fracMask) ||| implicitBit).toNat = mag b % 2 ^ 52 + 2 ^ 52 := by
    rw [BitVec.toNat_or, toNat_fraction, Nat.lor_comm, show implicitBit.toNat = 2 ^ 52 * 1 by decide,
      ← Nat.two_pow_add_eq_or_of_lt (Nat.mod_lt _ (by norm_num))]
    omega
  simp only [magnitude, toNat_exponent, hor, toNat_fraction, gridCoeff, gridScale]
  by_cases h : mag b / 2 ^ 52 = 0
  · rw [if_pos h, if_pos h, h]
    simp only [Magnitude.mk.injEq]
    omega
  · rw [if_neg h, if_neg h]
    simp only [Magnitude.mk.injEq, true_and]
    omega

/-- The magnitude is the absolute value. -/
lemma toReal_magnitude (b : U64) : (magnitude b).toReal = |value b| := by
  rw [magnitude_eq, abs_value]
  rfl

lemma coefficient_magnitude_lt (b : U64) : (magnitude b).coefficient < 2 ^ 53 := by
  rw [magnitude_eq]
  exact gridCoeff_lt (mag b)

lemma coefficient_magnitude_eq_zero {b : U64} :
    (magnitude b).coefficient = 0 ↔ mag b = 0 := by
  rw [magnitude_eq]
  show gridCoeff 52 (mag b) = 0 ↔ mag b = 0
  constructor
  · intro h
    by_contra hne
    exact (gridCoeff_pos hne).ne' h
  · intro h
    rw [h]
    exact gridCoeff_zero

/-- The scale bounds the value from above and, if it is not zero, from below. -/
lemma Magnitude.toReal_lt {m : Magnitude} {k : ℕ} (h : m.coefficient < k) :
    m.toReal < k * 2 ^ m.scale := by
  have hcast : (m.coefficient : ℝ) < k := by exact_mod_cast h
  exact mul_lt_mul_of_pos_right hcast (by positivity)

lemma Magnitude.le_toReal {m : Magnitude} (h : m.coefficient ≠ 0) : 2 ^ m.scale ≤ m.toReal := by
  have hcast : (1 : ℝ) ≤ m.coefficient := by exact_mod_cast Nat.one_le_iff_ne_zero.mpr h
  exact le_mul_of_one_le_left (by positivity) hcast

/-! ## Comparing integers -/

lemma compare_congr {α β : Type} [LinearOrder α] [LinearOrder β] {x y : α} {x' y' : β}
    (hlt : x < y ↔ x' < y') (hgt : y < x ↔ y' < x') : compare x y = compare x' y' := by
  rcases lt_trichotomy x y with h | h | h
  · rw [compare_lt_iff_lt.mpr h, compare_lt_iff_lt.mpr (hlt.mp h)]
  · have heq : x' = y' := by
      apply le_antisymm
      · exact not_lt.mp (mt hgt.mpr (by rw [h]; exact lt_irrefl _))
      · exact not_lt.mp (mt hlt.mpr (by rw [h]; exact lt_irrefl _))
    rw [compare_eq_iff_eq.mpr h, compare_eq_iff_eq.mpr heq]
  · rw [compare_gt_iff_gt.mpr h, compare_gt_iff_gt.mpr (hgt.mp h)]

/-- The cast keeps a distance that is neither negative nor too large. -/
lemma asU32_of_lt {z : ℤ} (h0 : 0 ≤ z) (h : z < 2 ^ 32) : (asU32 z : ℤ) = z := by
  rw [asU32, Int.emod_eq_of_lt h0 h, Int.toNat_of_nonneg h0]

/-- A shift that fits loses no bit. -/
lemma shl128_eq {value shift : ℕ} (hs : shift < 128) (h : value * 2 ^ shift < 2 ^ 128) :
    shl128 value shift = value * 2 ^ shift := by
  rw [shl128, Nat.mod_eq_of_lt hs, Nat.mod_eq_of_lt h]

/-- The shift that aligns `m` to the lower scale `s` loses no bit when the value of `m` stays
below `2^128` units of that scale. -/
lemma exists_align {m : Magnitude} {s : ℤ} (hm : m.coefficient ≠ 0) (hs : s ≤ m.scale)
    (h : m.toReal < 2 ^ 128 * 2 ^ s) :
    ∃ d, m.scale - s = (d : ℕ) ∧ asU32 (m.scale - s) = d ∧ d < 128 ∧
      m.coefficient * 2 ^ d < 2 ^ 128 ∧ m.toReal = (m.coefficient * 2 ^ d : ℕ) * 2 ^ s := by
  obtain ⟨d, hd⟩ := Int.eq_ofNat_of_zero_le (show 0 ≤ m.scale - s by omega)
  have hreal : m.toReal = (m.coefficient * 2 ^ d : ℕ) * 2 ^ s := by
    rw [Magnitude.toReal, show m.scale = d + s by omega, zpow_add₀ (by norm_num), zpow_natCast]
    push_cast
    ring
  have hlt : m.coefficient * 2 ^ d < 2 ^ 128 := by
    rw [hreal] at h
    exact_mod_cast lt_of_mul_lt_mul_right h (by positivity)
  have hd128 : d < 128 := by
    by_contra hge
    have : 2 ^ 128 ≤ 2 ^ d := Nat.pow_le_pow_right (by norm_num) (not_lt.mp hge)
    nlinarith [Nat.one_le_iff_ne_zero.mpr hm]
  have hu32 : asU32 (m.scale - s) = d := by
    have := asU32_of_lt (z := m.scale - s) (by omega) (by omega)
    omega
  exact ⟨d, hd, hu32, hd128, hlt, hreal⟩

/-- Aligned to a smaller scale, a magnitude keeps its value if it fits. -/
lemma shl128_align {m : Magnitude} {s : ℤ} (hm : m.coefficient ≠ 0) (hs : s ≤ m.scale)
    (h : m.toReal < 2 ^ 128 * 2 ^ s) :
    (shl128 m.coefficient (asU32 (m.scale - s)) : ℝ) * 2 ^ s = m.toReal := by
  obtain ⟨d, -, hu32, hd, hlt, hreal⟩ := exists_align hm hs h
  rw [hu32, shl128_eq hd hlt, hreal]

/-- Values other than zero, each within range of the other one's scale. -/
def Comparable (a b : Magnitude) : Prop :=
  a.coefficient ≠ 0 → b.coefficient ≠ 0 →
    a.toReal < 2 ^ 128 * 2 ^ b.scale ∧ b.toReal < 2 ^ 128 * 2 ^ a.scale

/-- Comparing aligned coefficients compares the values. -/
theorem compareNearbyScaled_eq {a b : Magnitude} (h : Comparable a b) :
    compareNearbyScaled a b = compare a.toReal b.toReal := by
  have hscaled : ∀ {m n : ℕ} {x y : ℝ} {s : ℤ}, (m : ℝ) * 2 ^ s = x → (n : ℝ) * 2 ^ s = y →
      compare m n = compare x y := by
    intro m n x y s hx hy
    have hpos : (0 : ℝ) < 2 ^ s := by positivity
    apply compare_congr
    · rw [← hx, ← hy, mul_lt_mul_iff_left₀ hpos, Nat.cast_lt]
    · rw [← hx, ← hy, mul_lt_mul_iff_left₀ hpos, Nat.cast_lt]
  rw [compareNearbyScaled]
  by_cases ha : a.coefficient = 0
  · rw [if_pos (Or.inl ha), ha]
    exact hscaled (s := b.scale) (by simp [Magnitude.toReal, ha]) rfl
  by_cases hb : b.coefficient = 0
  · rw [if_pos (Or.inr hb), hb]
    exact hscaled (s := a.scale) rfl (by simp [Magnitude.toReal, hb])
  obtain ⟨hab, hba⟩ := h ha hb
  rw [if_neg (by tauto)]
  rcases lt_trichotomy a.scale b.scale with hs | hs | hs
  · rw [compare_lt_iff_lt.mpr hs]
    exact hscaled rfl (shl128_align hb hs.le hba)
  · rw [compare_eq_iff_eq.mpr hs]
    exact hscaled (s := a.scale) rfl (by rw [hs]; rfl)
  · rw [compare_gt_iff_gt.mpr hs]
    exact hscaled (shl128_align ha hs.le hab) rfl

/-- Numbers of one sign are ordered as their magnitudes are, or the other way round. -/
lemma reverseIfNegative_compare {x v : ℝ} {negative : Bool}
    (hneg : negative = true → x ≤ 0 ∧ v ≤ 0) (hpos : negative = false → 0 ≤ x ∧ 0 ≤ v) :
    reverseIfNegative (compare |x| |v|) negative = compare x v := by
  cases negative with
  | false =>
    obtain ⟨hx, hv⟩ := hpos rfl
    rw [abs_of_nonneg hx, abs_of_nonneg hv]
    rfl
  | true =>
    obtain ⟨hx, hv⟩ := hneg rfl
    rw [abs_of_nonpos hx, abs_of_nonpos hv, reverseIfNegative, if_pos rfl,
      Std.OrientedOrd.eq_swap (a := x) (b := v)]
    congr 1
    apply compare_congr
    · exact neg_lt_neg_iff
    · exact neg_lt_neg_iff

/-! ## Neighbours -/

lemma msb_mag_add_one {b : U64} (h : mag b + 1 < 2 ^ 63) :
    (b + 1).msb = b.msb ∧ mag (b + 1) = mag b + 1 := by
  have hnat := toNat_eq b
  have hadd : (b + 1).toNat = b.toNat + 1 := by
    rw [BitVec.toNat_add]
    cases hs : b.msb <;> simp [hs] at hnat ⊢ <;> omega
  rw [mag, BitVec.msb_eq_decide, hadd]
  cases hs : b.msb <;> simp [hs] at hnat ⊢ <;> omega

lemma msb_mag_sub_one {b : U64} (h : mag b ≠ 0) :
    (b - 1).msb = b.msb ∧ mag (b - 1) + 1 = mag b := by
  have hlt := mag_lt b
  have hnat := toNat_eq b
  have hsub : (b - 1).toNat = b.toNat - 1 := by
    rw [BitVec.toNat_sub]
    cases hs : b.msb <;> simp [hs] at hnat ⊢ <;> omega
  rw [mag, BitVec.msb_eq_decide, hsub]
  cases hs : b.msb <;> simp [hs] at hnat ⊢ <;> omega

/-- The neighbour below has the ordinal before. -/
lemma ordinal_nextDown {b : U64} (h : ¬IsNaN b) : ordinal (nextDown b) = ordinal b - 1 := by
  have hmag : mag b + 1 < 2 ^ 63 := by
    have : infMag + 1 < 2 ^ 63 := by norm_num [infMag]
    have := not_lt.mp h
    omega
  rw [nextDown]
  by_cases h0 : mag b = 0
  · have ho : ordinal b = 0 := by
      rw [← Int.natAbs_eq_zero, natAbs_ordinal, h0]
    rw [if_pos ((and_absMask_eq_zero b).mpr h0), ho]
    decide
  rw [if_neg (mt (and_absMask_eq_zero b).mp h0)]
  cases hs : b.msb
  · obtain ⟨hs', hm⟩ := msb_mag_sub_one h0
    rw [if_pos ((and_signMask_eq_zero b).mpr hs), ordinal_of_pos hs, ordinal_of_pos (hs'.trans hs)]
    omega
  · obtain ⟨hs', hm⟩ := msb_mag_add_one hmag
    rw [if_neg (and_signMask_ne_zero hs), ordinal_of_neg hs,
      ordinal_of_neg (hs'.trans hs)]
    omega

/-- Below a zero every pattern is negative; elsewhere the sign is kept. -/
lemma msb_nextDown {b : U64} (h : ¬IsNaN b) :
    (nextDown b).msb = (b.msb || decide (mag b = 0)) := by
  have hmag : mag b + 1 < 2 ^ 63 := by
    have : infMag + 1 < 2 ^ 63 := by norm_num [infMag]
    have := not_lt.mp h
    omega
  rw [nextDown]
  by_cases h0 : mag b = 0
  · rw [if_pos ((and_absMask_eq_zero b).mpr h0), h0]
    rw [show (signMask ||| 1).msb = true by decide]
    simp
  rw [if_neg (mt (and_absMask_eq_zero b).mp h0)]
  simp only [h0, decide_false, Bool.or_false]
  split
  · exact (msb_mag_sub_one h0).1
  · exact (msb_mag_add_one hmag).1

/-- Moving up is moving down on the other side of zero. -/
lemma nextUp_eq_negate {b : U64} (h : ¬IsNaN b) : nextUp b = negate (nextDown (negate b)) := by
  have hmag : mag b + 1 < 2 ^ 63 := by
    have : infMag + 1 < 2 ^ 63 := by norm_num [infMag]
    have := not_lt.mp h
    omega
  have hzero : negate b &&& absMask = 0 ↔ b &&& absMask = 0 := by
    rw [and_absMask_eq_zero, and_absMask_eq_zero, mag_negate]
  rw [nextUp, nextDown]
  by_cases h0 : mag b = 0
  · have hz := (and_absMask_eq_zero b).mpr h0
    rw [if_pos hz, if_pos (hzero.mpr hz)]
    decide
  have hz := mt (and_absMask_eq_zero b).mp h0
  rw [if_neg hz, if_neg (mt hzero.mp hz)]
  cases hs : b.msb
  · have hs' : (negate b).msb = true := by rw [msb_negate, hs]; rfl
    rw [if_pos ((and_signMask_eq_zero b).mpr hs), if_neg (and_signMask_ne_zero hs')]
    obtain ⟨h1, h2⟩ := msb_mag_add_one hmag
    obtain ⟨h3, h4⟩ := msb_mag_add_one (b := negate b) (by rw [mag_negate]; exact hmag)
    apply eq_of_msb_mag
    · rw [msb_negate, h3, h1, hs', hs]
      rfl
    · rw [mag_negate, h4, h2, mag_negate]
  · have hs' : (negate b).msb = false := by rw [msb_negate, hs]; rfl
    rw [if_neg (and_signMask_ne_zero hs), if_pos ((and_signMask_eq_zero _).mpr hs')]
    obtain ⟨h1, h2⟩ := msb_mag_sub_one h0
    obtain ⟨h3, h4⟩ := msb_mag_sub_one (b := negate b) (by rw [mag_negate]; exact h0)
    apply eq_of_msb_mag
    · rw [msb_negate, h3, h1, hs', hs]
      rfl
    · rw [mag_negate] at h4 ⊢
      omega

/-- The neighbour above has the next one. -/
lemma ordinal_nextUp {b : U64} (h : ¬IsNaN b) : ordinal (nextUp b) = ordinal b + 1 := by
  rw [nextUp_eq_negate h, ordinal_negate, ordinal_nextDown (isNaN_negate.not.mpr h),
    ordinal_negate]
  ring

/-- The neighbour above of a negative number is negative, and be it zero. -/
lemma msb_nextUp {b : U64} (h : ¬IsNaN b) :
    (nextUp b).msb = (b.msb && !decide (mag b = 0)) := by
  rw [nextUp_eq_negate h, msb_negate, msb_nextDown (isNaN_negate.not.mpr h), msb_negate,
    mag_negate]
  simp

/-! ## Signs of nearest results -/

section
variable {x : ℝ} {zs : Bool} {n : U64}

/-- Rounding keeps the sign. -/
lemma value_nonneg_of_rounds {m : Mode} (hn : Rounds m x zs n) (hx : 0 ≤ x) : 0 ≤ value n := by
  have hinf : (0 : ℤ) < infMag := by norm_num [infMag]
  have := hn.le_ordinal (z := 0) (by omega) hinf (by rwa [grid_zero])
  rw [value, ← grid_zero]
  exact grid_strictMono.monotone this

lemma value_nonpos_of_rounds {m : Mode} (hn : Rounds m x zs n) (hx : x ≤ 0) : value n ≤ 0 := by
  have hinf : (0 : ℤ) < infMag := by norm_num [infMag]
  have := hn.ordinal_le (z := 0) (by omega) hinf (by rwa [grid_zero])
  rw [value, ← grid_zero]
  exact grid_strictMono.monotone this

/-! ## Directed results -/

/-- Above the exact value, moving down gives the rounding down with its sign. -/
lemma rounds_nextDown (hn : Rounds .nearestEven x zs n) (hfin : IsFinite n) (hlt : x < value n) :
    RoundsDown x (nextDown n) ∧ ((nextDown n).msb = true ↔ x < 0 ∨ (x = 0 ∧ zs = true)) := by
  refine ⟨RoundsNearest.roundsDown_pred hn.1 hfin hlt (ordinal_nextDown hfin.not_isNaN), ?_⟩
  rw [msb_nextDown hfin.not_isNaN, Bool.or_eq_true, hn.2, decide_eq_true_eq]
  constructor
  · intro h
    rcases h with h | h
    · exact h
    · left
      rwa [value_eq_zero_iff.mpr h] at hlt
  · exact Or.inl

/-- Below the exact value, moving up gives the rounding up with its sign. -/
lemma rounds_nextUp (hn : Rounds .nearestEven x zs n) (hfin : IsFinite n) (hlt : value n < x) :
    RoundsUp x (nextUp n) ∧ ((nextUp n).msb = true ↔ x < 0 ∨ (x = 0 ∧ zs = true)) := by
  refine ⟨RoundsNearest.roundsUp_succ hn.1 hfin hlt (ordinal_nextUp hfin.not_isNaN), ?_⟩
  rw [msb_nextUp hfin.not_isNaN, Bool.and_eq_true, hn.2, Bool.not_eq_true', decide_eq_false_iff_not]
  constructor
  · intro h
    exact h.1
  · intro h
    refine ⟨h, ?_⟩
    intro h0
    -- a zero below `x` leaves `x` positive, against its sign
    rw [value_eq_zero_iff.mpr h0] at hlt
    rcases h with h | h
    · linarith
    · exact hlt.ne' h.1

/-- Given how the exact value compares to a finite nearest one, `applyMode` selects the
rounding in the direction of the mode. -/
theorem applyMode_rounds (hn : Rounds .nearestEven x zs n) (hfin : IsFinite n)
    {negative : Bool} (hneg : x ≠ value n → (negative = true ↔ x < 0)) (mode : RoundingMode) :
    Rounds mode.toMode x zs (applyMode n (compare x (value n)) negative mode) := by
  have hdown : ¬x < value n → RoundsDown x n := fun h =>
    RoundsNearest.roundsDown hn.1 hfin (not_lt.mp h)
  have hup : ¬value n < x → RoundsUp x n := fun h =>
    RoundsNearest.roundsUp hn.1 hfin (not_lt.mp h)
  cases mode with
  | nearest => exact hn
  | down =>
    simp only [applyMode, compare_lt_iff_lt]
    split
    · exact rounds_nextDown hn hfin ‹_›
    · exact ⟨hdown ‹_›, hn.2⟩
  | up =>
    simp only [applyMode, compare_gt_iff_gt]
    split
    · exact rounds_nextUp hn hfin ‹_›
    · exact ⟨hup ‹_›, hn.2⟩
  | towardZero =>
    simp only [applyMode, compare_lt_iff_lt, compare_gt_iff_gt, Rounds, RoundsValue, RoundingMode.toMode]
    -- towards zero is down where the exact value is not negative, and up where it is
    by_cases hx : 0 ≤ x
    · rw [if_pos hx]
      split
      · rename_i h
        exact absurd ((hneg h.2.ne').mp h.1) (not_lt.mpr hx)
      split
      · rename_i h
        exact rounds_nextDown hn hfin h.2
      · rename_i h
        refine ⟨hdown fun hlt => h ⟨?_, hlt⟩, hn.2⟩
        rw [← Bool.not_eq_true, hneg hlt.ne]
        exact not_lt.mpr hx
    · rw [if_neg hx]
      split
      · rename_i h
        exact rounds_nextUp hn hfin h.2
      rename_i h
      have hle : ¬value n < x := fun hlt => h ⟨(hneg hlt.ne').mpr (not_le.mp hx), hlt⟩
      split
      · rename_i h'
        exact absurd ((hneg h'.2.ne).mpr (not_le.mp hx)) (by rw [h'.1]; decide)
      · exact ⟨hup hle, hn.2⟩

/-- Finite results are not treated as overflows. -/
lemma directedOverflow_of_isFinite (hfin : IsFinite n) (mode : RoundingMode) :
    directedOverflow n mode = none := by
  rw [directedOverflow, if_pos]
  rw [ne_eq, and_absMask_eq_expMask]
  exact hfin.not_isInf

/-- A nearest result that overflowed is replaced by the signed infinity or the signed largest
finite value, as the direction requires. -/
theorem directedOverflow_rounds (hn : Rounds .nearestEven x zs n) (hinf : IsInf n)
    (mode : RoundingMode) :
    ∃ r, directedOverflow n mode = some r ∧ Rounds mode.toMode x zs r := by
  have hbig : overflowBound ≤ |x| := by
    by_contra hlt
    have h := hn.1
    rw [RoundsValue, RoundsNearest, if_neg hlt] at h
    exact h.1.not_isInf hinf
  have hnan := hinf.not_isNaN
  have h0 : mag n ≠ 0 := by
    rw [hinf]
    norm_num [infMag]
  have hpos := overflowBound_pos
  refine ⟨_, by rw [directedOverflow, if_neg (by rw [not_not, and_absMask_eq_expMask]; exact hinf)],
    ?_⟩
  rw [and_signMask_bne]
  cases hs : n.msb
  · -- positive overflow
    have hsign : ¬(x < 0 ∨ (x = 0 ∧ zs = true)) := by
      rw [← hn.2, hs]
      decide
    have hx : overflowBound ≤ x := by
      rcases le_abs'.mp hbig with h | h
      · exact absurd (Or.inl (by linarith)) hsign
      · exact h
    have ho : ordinal n = infMag := by rw [ordinal_of_pos hs, hinf]
    have hdown : RoundsDown x (nextDown n) :=
      roundsDown_maxFinite hx (by rw [ordinal_nextDown hnan, ho])
    have hdsign : (nextDown n).msb = true ↔ x < 0 ∨ (x = 0 ∧ zs = true) := by
      rw [msb_nextDown hnan, hs]
      simpa [h0] using hsign
    cases mode with
    | nearest => exact hn
    | down => exact ⟨hdown, hdsign⟩
    | up => exact ⟨roundsUp_posInf hx ho, hn.2⟩
    | towardZero =>
      refine ⟨?_, hdsign⟩
      rw [RoundingMode.toMode, RoundsValue, if_pos (by linarith)]
      exact hdown
  · -- negative overflow
    have hx : x ≤ -overflowBound := by
      rcases le_abs'.mp hbig with h | h
      · exact h
      · rcases hn.2.mp hs with h' | h'
        · linarith
        · linarith [h'.1]
    have ho : ordinal n = -infMag := by rw [ordinal_of_neg hs, hinf]
    have hup : RoundsUp x (nextUp n) :=
      roundsUp_minFinite hx (by rw [ordinal_nextUp hnan, ho]; ring)
    have husign : (nextUp n).msb = true ↔ x < 0 ∨ (x = 0 ∧ zs = true) := by
      rw [msb_nextUp hnan, hs]
      simpa [h0] using hn.2.mp hs
    cases mode with
    | nearest => exact hn
    | down => exact ⟨roundsDown_negInf hx ho, hn.2⟩
    | up => exact ⟨hup, husign⟩
    | towardZero =>
      refine ⟨?_, husign⟩
      rw [RoundingMode.toMode, RoundsValue, if_neg (by linarith)]
      exact hup

end

end RandomXSp1.SoftFp
