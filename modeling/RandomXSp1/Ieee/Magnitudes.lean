import RandomXSp1.Ieee.RoundingFunction

/-!
# Magnitudes under rounding

Rounding keeps to its side of every finite value, and so it does in magnitude. The binades of the
format are stretches of `2 ^ 52` magnitudes: a step of one binade doubles a value, and from a
binade on the values are multiples of one unit.
-/

namespace RandomXSp1.Ieee

/-! ## Binades of a grid -/

section
variable {t : ℕ} {q : ℤ} {e k : ℕ}

lemma add_le_gridScale (hk : (e + 1) * 2 ^ t ≤ k) : q + e ≤ gridScale t q k := by
  have hdiv : e + 1 ≤ k / 2 ^ t := (Nat.le_div_iff_mul_le (Nat.two_pow_pos t)).mpr hk
  unfold gridScale
  omega

/-- Beyond a binade the grid is at least as coarse as in it. -/
lemma zpow_le_gridUlp (hk : (e + 1) * 2 ^ t ≤ k) : (2 : ℝ) ^ (q + e) ≤ gridUlp t q k :=
  zpow_le_zpow_right₀ (by norm_num) (add_le_gridScale hk)

/-- From a binade on the grid consists of multiples of the unit of the binade. -/
lemma exists_gridVal_eq_mul (hk : (e + 1) * 2 ^ t ≤ k) :
    ∃ c : ℕ, gridVal t q k = c * 2 ^ (q + e) := by
  obtain ⟨n, hn⟩ := Int.le.dest (add_le_gridScale (q := q) hk)
  refine ⟨gridCoeff t k * 2 ^ n, ?_⟩
  rw [gridVal, ← hn, zpow_add₀ (by norm_num), zpow_natCast]
  push_cast
  ring

/-- The next binade doubles a normal value. -/
lemma gridVal_add_two_pow (hk : 2 ^ t ≤ k) : gridVal t q (k + 2 ^ t) = 2 * gridVal t q k := by
  have hpos := Nat.two_pow_pos t
  have hone : 1 ≤ k / 2 ^ t := (Nat.one_le_div_iff hpos).mpr hk
  have hcoeff : gridCoeff t (k + 2 ^ t) = gridCoeff t k := by
    rw [gridCoeff_of_normal (by omega), gridCoeff_of_normal hk, Nat.add_mod_right]
  have hscale : gridScale t q (k + 2 ^ t) = gridScale t q k + 1 := by
    rw [gridScale, gridScale, Nat.add_div_right k hpos]
    omega
  rw [gridVal, gridVal, hcoeff, hscale, zpow_add_one₀ (by norm_num)]
  ring

end

/-! ## Binades of the format -/

/-- The magnitude with the given exponent field and fraction zero. -/
def binade (e : ℕ) : ℕ := e * 2 ^ 52

lemma gridVal_binade_succ (e : ℕ) : gridVal 52 (-1074) (binade (e + 1)) = 2 ^ ((e : ℤ) - 1022) := by
  unfold binade
  rw [gridVal_binade, show (-1074 : ℤ) + (52 : ℕ) + e = e - 1022 by push_cast; ring]

/-- Binades start at increasing values. -/
lemma gridVal_binade_mono {d e : ℕ} (h : d ≤ e) :
    gridVal 52 (-1074) (binade d) ≤ gridVal 52 (-1074) (binade e) :=
  gridVal_strictMono.monotone (Nat.mul_le_mul_right _ h)

section
variable {b : Bits}

/-- Bounds on the magnitude bound the absolute value. -/
lemma abs_value_le_gridVal {k : ℕ} (h : mag b ≤ k) : |value b| ≤ gridVal 52 (-1074) k := by
  rw [abs_value]
  exact gridVal_strictMono.monotone h

lemma abs_value_lt_gridVal {k : ℕ} (h : mag b < k) : |value b| < gridVal 52 (-1074) k := by
  rw [abs_value]
  exact gridVal_strictMono h

lemma gridVal_le_abs_value {k : ℕ} (h : k ≤ mag b) : gridVal 52 (-1074) k ≤ |value b| := by
  rw [abs_value]
  exact gridVal_strictMono.monotone h

/-- A value beyond a binade is a multiple of the distance in it. -/
lemma exists_value_eq_mul {e : ℕ} (h : binade (e + 1) ≤ mag b) :
    ∃ z : ℤ, value b = z * 2 ^ ((e : ℤ) - 1074) := by
  obtain ⟨c, hc⟩ := exists_gridVal_eq_mul (q := -1074) h
  rw [neg_add_eq_sub] at hc
  cases hs : b.msb with
  | false => exact ⟨c, by rw [value_of_pos hs, hc]; rfl⟩
  | true => exact ⟨-c, by rw [value_of_neg hs, hc, Int.cast_neg, neg_mul]; rfl⟩

end

/-! ## Roundings -/

section
variable {m : Mode} {x : ℝ} {zs : Bool} {r : Bits} (h : Rounds m x zs r)
include h

/-- A finite magnitude below `|x|` is not above that of the rounding of `x`. -/
theorem Rounds.le_mag {k : ℕ} (hk : k < infMag) (hle : gridVal 52 (-1074) k ≤ |x|) :
    k ≤ mag r := by
  have hordinal := natAbs_ordinal r
  rcases le_total 0 x with hx | hx
  · rw [abs_of_nonneg hx, ← grid_natCast] at hle
    have hge := h.le_ordinal (z := k) (by omega) (by omega) hle
    omega
  · rw [abs_of_nonpos hx, ← grid_natCast, le_neg, ← grid_neg] at hle
    have hge := h.ordinal_le (z := -k) (by omega) (by omega) hle
    omega

/-- A finite magnitude above `|x|` is not below that of the rounding of `x`. -/
theorem Rounds.mag_le {k : ℕ} (hk : k < infMag) (hle : |x| ≤ gridVal 52 (-1074) k) :
    mag r ≤ k := by
  have hordinal := natAbs_ordinal r
  rw [← grid_natCast, abs_le, ← grid_neg] at hle
  have hlow := h.le_ordinal (z := -k) (by omega) (by omega) hle.1
  have hhigh := h.ordinal_le (z := k) (by omega) (by omega) hle.2
  omega

/-- A finite value is its own rounding, up to the sign of zero. -/
lemma Rounds.mag_eq {b : Bits} (hb : IsFinite b) (hx : x = value b) : mag r = mag b := by
  apply le_antisymm
  · apply h.mag_le hb
    rw [hx]
    exact abs_value_le_gridVal le_rfl
  · apply h.le_mag hb
    rw [hx]
    exact gridVal_le_abs_value le_rfl

lemma Rounds.mag_le_infMag : mag r ≤ infMag := not_lt.mp h.not_isNaN

/-- A result that is not negative has no sign bit, unless it is a zero with that sign. -/
lemma Rounds.msb_eq_false (hx : 0 ≤ x) (hzs : zs = false) : r.msb = false := by
  rw [← Bool.not_eq_true, h.2, hzs]
  rintro (hneg | ⟨-, hfalse⟩)
  · exact absurd hneg (not_lt.mpr hx)
  · exact absurd hfalse Bool.false_ne_true

end

end RandomXSp1.Ieee
