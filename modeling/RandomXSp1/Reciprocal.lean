import RandomXSp1.Common

/-!
# Reciprocals

The long division of `randomx_reciprocal` doubles a dividend that starts as `2^63` once for each
significant bit of the divisor, modulo `2^64`. The doubled remainder never wraps around, and
neither does the last quotient.
-/

namespace RandomXSp1

/-! ## Powers of two -/

lemma isZeroOrPowerOf2_iff (value : U64) :
    isZeroOrPowerOf2 value = true ↔ value = 0 ∨ ∃ k, value.toNat = 2 ^ k := by
  unfold isZeroOrPowerOf2
  rw [beq_iff_eq]
  by_cases hzero : value = 0
  · subst hzero
    simp
  have hne : value.toNat ≠ 0 := fun h => hzero (BitVec.eq_of_toNat_eq h)
  have hpred : (value - 1).toNat = value.toNat - 1 :=
    BitVec.toNat_sub_of_le (by
      rw [BitVec.le_def]
      exact Nat.one_le_iff_ne_zero.mpr hne)
  have hand : value &&& (value - 1) = 0 ↔ value.toNat &&& (value.toNat - 1) = 0 := by
    rw [← hpred, ← BitVec.toNat_and]
    exact ⟨fun h => congrArg BitVec.toNat h, fun h => BitVec.eq_of_toNat_eq h⟩
  rw [hand, Nat.and_sub_one_eq_zero_iff_isPowerOfTwo hne, or_iff_right hzero]
  rfl

/-! ## The number of significant bits -/

lemma size_div_two_add_one {n : ℕ} (h : n ≠ 0) : n.size = (n / 2).size + 1 := by
  apply le_antisymm
  · rw [Nat.size_le, pow_succ]
    have hlt := Nat.lt_size_self (n / 2)
    omega
  · rw [Nat.succ_le_iff, Nat.lt_size]
    cases hsize : (n / 2).size with
    | zero =>
      rw [pow_zero]
      omega
    | succ s =>
      have hle : 2 ^ s ≤ n / 2 := Nat.lt_size.mp (by omega)
      rw [pow_succ]
      omega

lemma reciprocalBsr_eq {fuel : ℕ} {bit : U64} (h : bit.toNat < 2 ^ fuel) :
    reciprocalBsr fuel bit = bit.toNat.size := by
  induction fuel generalizing bit with
  | zero =>
    rw [pow_zero] at h
    rw [show bit.toNat = 0 by omega]
    rfl
  | succ fuel ih =>
    unfold reciprocalBsr
    by_cases hzero : bit = 0
    · rw [if_pos hzero, hzero]
      rfl
    · have hne : bit.toNat ≠ 0 := fun hnat => hzero (BitVec.eq_of_toNat_eq hnat)
      have hshift : (bit >>> 1).toNat = bit.toNat / 2 := by
        rw [BitVec.toNat_ushiftRight, Nat.shiftRight_eq_div_pow, pow_one]
      rw [if_neg hzero, ih (by rw [hshift]; omega), hshift, size_div_two_add_one hne]

/-! ## Long division -/

/-- The quotient, modulo `2^64`, and the remainder of the dividend after `k` doublings. -/
structure LongDivision (divisor : U64) (k : ℕ) (qr : U64 × U64) : Prop where
  quotient : qr.1.toNat = 2 ^ (63 + k) / divisor.toNat % 2 ^ 64
  remainder : qr.2.toNat = 2 ^ (63 + k) % divisor.toNat

/-- Doubling a dividend. -/
lemma two_mul_div_mod (n : ℕ) {d : ℕ} (hd : 0 < d) :
    (d ≤ 2 * (n % d) → 2 * n / d = 2 * (n / d) + 1 ∧ 2 * n % d = 2 * (n % d) - d) ∧
      (2 * (n % d) < d → 2 * n / d = 2 * (n / d) ∧ 2 * n % d = 2 * (n % d)) := by
  have hlt := Nat.mod_lt n hd
  have hsplit := Nat.mod_add_div n d
  constructor
  · intro hle
    rw [Nat.div_mod_unique hd]
    refine ⟨?_, by omega⟩
    rw [Nat.mul_add, Nat.mul_left_comm]
    omega
  · intro hlt
    rw [Nat.div_mod_unique hd]
    refine ⟨?_, hlt⟩
    rw [Nat.mul_left_comm]
    omega

section
variable {divisor : U64} (hdivisor : 0 < divisor.toNat)
include hdivisor

lemma LongDivision.step {k : ℕ} {qr : U64 × U64} (h : LongDivision divisor k qr) :
    LongDivision divisor (k + 1) (reciprocalStep divisor qr) := by
  have hpow : 2 ^ (63 + (k + 1)) = 2 * 2 ^ (63 + k) := by ring
  obtain ⟨htake, hskip⟩ := two_mul_div_mod (2 ^ (63 + k)) hdivisor
  have hrem : qr.2.toNat < divisor.toNat := by
    rw [h.remainder]
    exact Nat.mod_lt _ hdivisor
  have hwidth := divisor.isLt
  have hdifference : (divisor - qr.2).toNat = divisor.toNat - qr.2.toNat :=
    BitVec.toNat_sub_of_le (by rw [BitVec.le_def]; omega)
  rw [← h.remainder] at htake hskip
  unfold reciprocalStep
  split
  · rename_i hle
    rw [BitVec.le_def, hdifference] at hle
    obtain ⟨hquotient, hremainder⟩ := htake (by omega)
    constructor
    · rw [hpow, hquotient, BitVec.toNat_add, BitVec.toNat_mul, h.quotient]
      show ((_ % 2 ^ 64 * 2) % 2 ^ 64 + 1) % 2 ^ 64 = _
      omega
    · rw [hpow, hremainder, BitVec.toNat_sub, BitVec.toNat_mul]
      show (2 ^ 64 - divisor.toNat + qr.2.toNat * 2 % 2 ^ 64) % 2 ^ 64 = _
      omega
  · rename_i hle
    rw [BitVec.le_def, hdifference] at hle
    obtain ⟨hquotient, hremainder⟩ := hskip (by omega)
    constructor
    · rw [hpow, hquotient, BitVec.toNat_mul, h.quotient]
      show (_ % 2 ^ 64 * 2) % 2 ^ 64 = _
      omega
    · rw [hpow, hremainder, BitVec.toNat_mul]
      show qr.2.toNat * 2 % 2 ^ 64 = _
      omega

lemma longDivision_iterate (k : ℕ) :
    LongDivision divisor k
      ((reciprocalStep divisor)^[k] ((1 <<< 63) / divisor, (1 <<< 63) % divisor)) := by
  induction k with
  | zero =>
    have hle : 2 ^ 63 / divisor.toNat ≤ 2 ^ 63 := Nat.div_le_self _ _
    constructor
    · show ((1 <<< 63 : U64) / divisor).toNat = _
      rw [BitVec.toNat_udiv]
      exact (Nat.mod_eq_of_lt (lt_of_le_of_lt hle (by decide))).symm
    · show ((1 <<< 63 : U64) % divisor).toNat = _
      rw [BitVec.toNat_umod]
      rfl
  | succ k ih =>
    rw [Function.iterate_succ_apply']
    exact ih.step hdivisor

end

/-! ## The reciprocal -/

/-- A divisor that is no power of two lies strictly between two of them. -/
lemma pow_lt_of_not_powerOf2 {d : ℕ} (hzero : d ≠ 0) (hpow : ∀ k, d ≠ 2 ^ k) :
    2 ^ (d.size - 1) < d ∧ d < 2 ^ d.size := by
  have hpos : 0 < d.size := Nat.size_pos.mpr (Nat.pos_of_ne_zero hzero)
  have hle : 2 ^ (d.size - 1) ≤ d := Nat.lt_size.mp (by omega)
  exact ⟨lt_of_le_of_ne hle (hpow _).symm, Nat.lt_size_self d⟩

/-- The last dividend, over the divisor, fills the 64 bits. -/
lemma quotient_bounds {d : ℕ} (hzero : d ≠ 0) (hpow : ∀ k, d ≠ 2 ^ k) :
    2 ^ 63 ≤ 2 ^ (63 + d.size) / d ∧ 2 ^ (63 + d.size) / d < 2 ^ 64 := by
  obtain ⟨hlow, hhigh⟩ := pow_lt_of_not_powerOf2 hzero hpow
  have hpos : 0 < d.size := Nat.size_pos.mpr (Nat.pos_of_ne_zero hzero)
  constructor
  · rw [Nat.le_div_iff_mul_le (Nat.pos_of_ne_zero hzero), pow_add]
    exact Nat.mul_le_mul_left _ hhigh.le
  · rw [Nat.div_lt_iff_lt_mul (Nat.pos_of_ne_zero hzero)]
    calc 2 ^ (63 + d.size) = 2 ^ 64 * 2 ^ (d.size - 1) := by
          rw [← pow_add]
          congr 1
          omega
      _ < 2 ^ 64 * d := Nat.mul_lt_mul_of_pos_left hlow (by positivity)

/-- No larger exponent keeps the quotient below `2^64`. -/
lemma le_of_quotient_lt {d x : ℕ} (hzero : d ≠ 0) (hx : 2 ^ x / d < 2 ^ 64) :
    x ≤ 63 + d.size := by
  rw [Nat.div_lt_iff_lt_mul (Nat.pos_of_ne_zero hzero)] at hx
  have hlt : 2 ^ x < 2 ^ (64 + d.size) := by
    calc 2 ^ x < 2 ^ 64 * d := hx
      _ ≤ 2 ^ 64 * 2 ^ d.size := Nat.mul_le_mul_left _ (Nat.lt_size_self d).le
      _ = 2 ^ (64 + d.size) := (pow_add 2 64 _).symm
  have := (Nat.pow_lt_pow_iff_right (by decide : 1 < 2)).mp hlt
  omega

/-- The reciprocal is the rounded quotient. -/
theorem randomxReciprocal_eq {divisor : U64} (hzero : divisor ≠ 0)
    (hpow : ∀ k, divisor.toNat ≠ 2 ^ k) :
    ∃ q, randomxReciprocal divisor = some q ∧
      q.toNat = 2 ^ (63 + divisor.toNat.size) / divisor.toNat := by
  have hne : divisor.toNat ≠ 0 := fun h => hzero (BitVec.eq_of_toNat_eq h)
  have hdivision := longDivision_iterate (Nat.pos_of_ne_zero hne) divisor.toNat.size
  unfold randomxReciprocal
  rw [if_neg hzero]
  dsimp only
  rw [reciprocalBsr_eq divisor.isLt]
  refine ⟨_, rfl, ?_⟩
  rw [hdivision.quotient]
  exact Nat.mod_eq_of_lt (quotient_bounds hne hpow).2

end RandomXSp1
