import Mathlib

/-!
# Floating-point grids

The nonnegative values of a binary floating-point format with `t` stored fraction bits and
smallest scale `2^q`, indexed by the integer their bit pattern denotes: the fraction is the
low `t` bits of the index and the exponent field is the rest, an exponent field of zero
marking the subnormal binade. The index of a value is its rank, so `gridVal` is strictly
increasing and consecutive indices are consecutive values of the format; the index with the
largest exponent field and zero fraction gets the value the format would hold there if its
exponent range were not bounded.

`signedGrid` extends the enumeration to the integers by symmetry.
-/

namespace RandomXSp1.Ieee

instance atLeastTwo_two : Nat.AtLeastTwo 2 := ⟨le_rfl⟩

/-- The integer coefficient of grid point `k`: the fraction, with the implicit bit on a
normal point. -/
def gridCoeff (t k : ℕ) : ℕ :=
  if k / 2 ^ t = 0 then k else k % 2 ^ t + 2 ^ t

/-- The binary exponent of the last place of grid point `k`. -/
def gridScale (t : ℕ) (q : ℤ) (k : ℕ) : ℤ :=
  q + ((k / 2 ^ t - 1 : ℕ) : ℤ)

/-- The value of grid point `k`. -/
noncomputable def gridVal (t : ℕ) (q : ℤ) (k : ℕ) : ℝ :=
  gridCoeff t k * 2 ^ gridScale t q k

/-- One unit in the last place of grid point `k`. -/
noncomputable def gridUlp (t : ℕ) (q : ℤ) (k : ℕ) : ℝ :=
  2 ^ gridScale t q k

variable {t : ℕ} {q : ℤ}

/-! ## Coefficients and scales -/

/-- Below the first binade the coefficient is the index itself. -/
lemma gridCoeff_of_subnormal {k : ℕ} (hk : k < 2 ^ t) : gridCoeff t k = k := by
  rw [gridCoeff, if_pos (Nat.div_eq_of_lt hk)]

/-- Above it the coefficient has its leading bit. -/
lemma gridCoeff_of_normal {k : ℕ} (hk : 2 ^ t ≤ k) :
    gridCoeff t k = k % 2 ^ t + 2 ^ t := by
  rw [gridCoeff, if_neg]
  have := (Nat.one_le_div_iff (Nat.two_pow_pos t)).mpr hk
  omega

lemma gridCoeff_lt (k : ℕ) : gridCoeff t k < 2 ^ (t + 1) := by
  have hpos := Nat.two_pow_pos t
  have hmod := Nat.mod_lt k hpos
  rcases lt_or_ge k (2 ^ t) with h | h
  · rw [gridCoeff_of_subnormal h, pow_succ]
    omega
  · rw [gridCoeff_of_normal h, pow_succ]
    omega

lemma two_pow_le_gridCoeff {k : ℕ} (hk : 2 ^ t ≤ k) : 2 ^ t ≤ gridCoeff t k := by
  rw [gridCoeff_of_normal hk]
  omega

lemma gridCoeff_pos {k : ℕ} (hk : k ≠ 0) : 0 < gridCoeff t k := by
  rcases lt_or_ge k (2 ^ t) with h | h
  · rw [gridCoeff_of_subnormal h]
    omega
  · exact lt_of_lt_of_le (Nat.two_pow_pos t) (two_pow_le_gridCoeff h)

@[simp] lemma gridCoeff_zero : gridCoeff t 0 = 0 := by
  simp [gridCoeff]

/-- Scales, and so the distances on the grid, do not decrease. -/
lemma gridScale_mono {j k : ℕ} (h : j ≤ k) : gridScale t q j ≤ gridScale t q k := by
  have := Nat.div_le_div_right (c := 2 ^ t) h
  simp only [gridScale]
  omega

lemma gridUlp_pos (k : ℕ) : 0 < gridUlp t q k := by
  unfold gridUlp
  positivity

lemma gridUlp_mono {j k : ℕ} (h : j ≤ k) : gridUlp t q j ≤ gridUlp t q k :=
  zpow_le_zpow_right₀ (by norm_num) (gridScale_mono h)

/-! ## The enumeration is strictly increasing -/

/-- Consecutive grid points are one unit in the last place of the lower one apart, also
across a change of binade. -/
theorem gridVal_succ (k : ℕ) : gridVal t q (k + 1) = gridVal t q k + gridUlp t q k := by
  have hpos := Nat.two_pow_pos t
  have hk := Nat.div_add_mod k (2 ^ t)
  have hmod := Nat.mod_lt k hpos
  set e := k / 2 ^ t with he
  set f := k % 2 ^ t with hf
  by_cases hcarry : f + 1 < 2 ^ t
  · -- the fraction does not overflow, so the binade is unchanged
    have hdiv : (k + 1) / 2 ^ t = e := by
      rw [← hk, add_assoc, Nat.mul_add_div hpos, Nat.div_eq_of_lt hcarry, add_zero]
    have hmod' : (k + 1) % 2 ^ t = f + 1 := by
      rw [← hk, add_assoc, Nat.mul_add_mod, Nat.mod_eq_of_lt hcarry]
    have hscale : gridScale t q (k + 1) = gridScale t q k := by
      simp only [gridScale, hdiv, ← he]
    have hcoeff : gridCoeff t (k + 1) = gridCoeff t k + 1 := by
      simp only [gridCoeff, hdiv, hmod', ← he, ← hf]
      split
      · rfl
      · omega
    simp only [gridVal, gridUlp, hscale, hcoeff]
    push_cast
    ring
  · -- the carry starts the next binade
    have hf1 : f + 1 = 2 ^ t := by omega
    have hdiv : (k + 1) / 2 ^ t = e + 1 := by
      rw [← hk, add_assoc, hf1, Nat.mul_add_div hpos, Nat.div_self hpos]
    have hmod' : (k + 1) % 2 ^ t = 0 := by
      rw [← hk, add_assoc, hf1, Nat.mul_add_mod, Nat.mod_self]
    have hcoeff : gridCoeff t (k + 1) = 2 ^ t := by
      rw [gridCoeff, hdiv, hmod']
      simp
    by_cases hsub : e = 0
    · have hcoeff' : gridCoeff t k + 1 = 2 ^ t := by
        rw [gridCoeff, ← he, if_pos hsub]
        rw [hsub] at hk
        omega
      have hscale : gridScale t q (k + 1) = gridScale t q k := by
        simp only [gridScale, hdiv, ← he, hsub]
      have hcast : (gridCoeff t k : ℝ) + 1 = 2 ^ t := by exact_mod_cast hcoeff'
      simp only [gridVal, gridUlp, hscale, hcoeff]
      push_cast
      rw [← hcast]
      ring
    · have hcoeff' : gridCoeff t k + 1 = 2 * 2 ^ t := by
        rw [gridCoeff, ← he, if_neg hsub, ← hf]
        omega
      have hscale : gridScale t q (k + 1) = gridScale t q k + 1 := by
        obtain ⟨n, hn⟩ := Nat.exists_eq_succ_of_ne_zero hsub
        rw [gridScale, gridScale, hdiv, ← he, hn]
        push_cast
        ring
      have hcast : (gridCoeff t k : ℝ) + 1 = 2 * 2 ^ t := by exact_mod_cast hcoeff'
      simp only [gridVal, gridUlp, hscale, hcoeff]
      rw [zpow_add_one₀ (by norm_num)]
      push_cast
      linear_combination (-(2 : ℝ) ^ gridScale t q k) * hcast

/-- The grid is increasing, as each value lies a positive distance above the one before it. -/
theorem gridVal_strictMono : StrictMono (gridVal t q) :=
  strictMono_nat_of_lt_succ fun k => by
    rw [gridVal_succ]
    exact lt_add_of_pos_right _ (gridUlp_pos k)

@[simp] lemma gridVal_zero : gridVal t q 0 = 0 := by
  simp [gridVal]

lemma gridVal_nonneg (k : ℕ) : 0 ≤ gridVal t q k := by
  calc (0 : ℝ) = gridVal t q 0 := gridVal_zero.symm
    _ ≤ gridVal t q k := gridVal_strictMono.monotone (Nat.zero_le k)

lemma gridVal_pos {k : ℕ} (hk : k ≠ 0) : 0 < gridVal t q k := by
  calc (0 : ℝ) = gridVal t q 0 := gridVal_zero.symm
    _ < gridVal t q k := gridVal_strictMono (Nat.pos_of_ne_zero hk)

/-- The grid point with exponent field `e + 1` and zero fraction is a power of two. -/
lemma gridVal_binade (e : ℕ) : gridVal t q ((e + 1) * 2 ^ t) = 2 ^ (q + t + e) := by
  have hpos := Nat.two_pow_pos t
  have hcoeff : gridCoeff t ((e + 1) * 2 ^ t) = 2 ^ t := by
    rw [gridCoeff, Nat.mul_div_cancel _ hpos, Nat.mul_mod_left]
    simp
  have hscale : gridScale t q ((e + 1) * 2 ^ t) = q + e := by
    rw [gridScale, Nat.mul_div_cancel _ hpos, Nat.add_sub_cancel]
  have hsum : q + (t : ℤ) + e = t + (q + e) := by ring
  rw [gridVal, hcoeff, hscale, hsum, zpow_add₀ (by norm_num) (t : ℤ) (q + e), zpow_natCast]
  push_cast
  rfl

/-! ## Spacing -/

/-- A grid point different from a normal one is at least half its unit away. -/
theorem half_ulp_le_abs_sub {j k : ℕ} (hk : 2 ^ t ≤ k) (hjk : j ≠ k) :
    gridUlp t q k / 2 ≤ |gridVal t q j - gridVal t q k| := by
  rcases lt_or_gt_of_ne hjk with h | h
  · -- below `k` the nearest point is `k - 1`, at most one binade lower
    obtain ⟨m, rfl⟩ : ∃ m, k = m + 1 := ⟨k - 1, by omega⟩
    have hle : gridVal t q j ≤ gridVal t q m := gridVal_strictMono.monotone (by omega)
    have hulp : gridUlp t q (m + 1) / 2 ≤ gridUlp t q m := by
      have hdiv : (m + 1) / 2 ^ t ≤ m / 2 ^ t + 1 := by
        have h1 : (m + 1) / 2 ^ t ≤ (m + 2 ^ t) / 2 ^ t :=
          Nat.div_le_div_right (by have := Nat.two_pow_pos t; omega)
        rwa [Nat.add_div_right _ (Nat.two_pow_pos t)] at h1
      have hscale : gridScale t q (m + 1) ≤ gridScale t q m + 1 := by
        simp only [gridScale]
        omega
      have := zpow_le_zpow_right₀ (a := (2 : ℝ)) (by norm_num) hscale
      rw [zpow_add_one₀ (by norm_num)] at this
      unfold gridUlp
      linarith
    have hsucc : gridVal t q (m + 1) = gridVal t q m + gridUlp t q m := gridVal_succ m
    have hpos : 0 < gridUlp t q m := gridUlp_pos m
    rw [abs_sub_comm, abs_of_nonneg (by linarith)]
    linarith
  · have hle : gridVal t q (k + 1) ≤ gridVal t q j := gridVal_strictMono.monotone h
    have hpos : 0 < gridUlp t q k := gridUlp_pos k
    rw [gridVal_succ] at hle
    rw [abs_of_nonneg (by linarith)]
    linarith

/-! ## The grid on both sides of zero -/

/-- The grid extended to the integers by symmetry. -/
noncomputable def signedGrid (t : ℕ) (q : ℤ) (z : ℤ) : ℝ :=
  if z < 0 then -gridVal t q z.natAbs else gridVal t q z.natAbs

@[simp] lemma signedGrid_natCast (k : ℕ) : signedGrid t q k = gridVal t q k := by
  simp [signedGrid]

@[simp] lemma signedGrid_zero : signedGrid t q 0 = 0 := by
  simp [signedGrid]

/-- The negative half mirrors the positive one. -/
@[simp] lemma signedGrid_neg (z : ℤ) : signedGrid t q (-z) = -signedGrid t q z := by
  rcases lt_trichotomy z 0 with h | rfl | h
  · rw [signedGrid, signedGrid, if_pos h, if_neg (by omega), Int.natAbs_neg, neg_neg]
  · simp
  · rw [signedGrid, signedGrid, if_pos (by omega), if_neg (by omega), Int.natAbs_neg]

/-- The whole grid is increasing. -/
theorem signedGrid_strictMono : StrictMono (signedGrid t q) := by
  intro y z h
  rcases lt_or_ge y 0 with hy | hy <;> rcases lt_or_ge z 0 with hz | hz
  · simp only [signedGrid, if_pos hy, if_pos hz]
    exact neg_lt_neg (gridVal_strictMono (by omega))
  · simp only [signedGrid, if_pos hy, if_neg (not_lt.mpr hz)]
    have hneg : 0 < gridVal t q y.natAbs := gridVal_pos (by omega)
    have hnonneg : 0 ≤ gridVal t q z.natAbs := gridVal_nonneg _
    linarith
  · omega
  · simp only [signedGrid, if_neg (not_lt.mpr hy), if_neg (not_lt.mpr hz)]
    exact gridVal_strictMono (by omega)

lemma abs_signedGrid (z : ℤ) : |signedGrid t q z| = gridVal t q z.natAbs := by
  rcases lt_or_ge z 0 with h | h
  · rw [signedGrid, if_pos h, abs_neg, abs_of_nonneg (gridVal_nonneg _)]
  · rw [signedGrid, if_neg (not_lt.mpr h), abs_of_nonneg (gridVal_nonneg _)]

end RandomXSp1.Ieee
