import RandomXSp1.Ieee.Binary64

/-!
# Correct rounding

`Rounds m x zs r` says that the pattern `r` is the binary64 rounding of the exact real `x`
under the attribute `m`, the sign of an exactly zero `x` being `zs`. The directed attributes
are stated as extremal patterns of the extended-real order, round-to-nearest by distance
with ties to even and the usual overflow threshold.

The section on directed results says what a nearest result tells about them: of the
directed roundings of `x`, one is a nearest finite rounding itself and the other its
neighbour on the side of `x`.
-/

namespace RandomXSp1.Ieee

/-- The rounding-direction attributes. -/
inductive Mode where
  | nearestEven
  | down
  | up
  | towardZero
  deriving DecidableEq, Repr

/-- The least magnitude that round-to-nearest carries to infinity: half a unit above the
largest finite value. -/
noncomputable def overflowBound : ℝ := 2 ^ (1024 : ℤ) - 2 ^ (970 : ℤ)

/-- `r` is the greatest pattern not above `x`. -/
def RoundsDown (x : ℝ) (r : Bits) : Prop :=
  ¬IsNaN r ∧ toEReal r ≤ x ∧ ∀ c, ¬IsNaN c → toEReal c ≤ x → toEReal c ≤ toEReal r

/-- `r` is the least pattern not below `x`. -/
def RoundsUp (x : ℝ) (r : Bits) : Prop :=
  ¬IsNaN r ∧ x ≤ toEReal r ∧ ∀ c, ¬IsNaN c → x ≤ toEReal c → toEReal r ≤ toEReal c

/-- `r` is nearest to `x`, the even one of two equally near values, and infinite from
`overflowBound` on. -/
def RoundsNearest (x : ℝ) (r : Bits) : Prop :=
  if overflowBound ≤ |x| then IsInf r
  else IsFinite r ∧ (∀ c, IsFinite c → |x - value r| ≤ |x - value c|) ∧
    ∀ c, IsFinite c → value c ≠ value r → |x - value c| = |x - value r| → mag r % 2 = 0

/-- The direction part of `Rounds`, which does not see the sign of a zero. -/
def RoundsValue (m : Mode) (x : ℝ) (r : Bits) : Prop :=
  match m with
  | .nearestEven => RoundsNearest x r
  | .down => RoundsDown x r
  | .up => RoundsUp x r
  | .towardZero => if 0 ≤ x then RoundsDown x r else RoundsUp x r

/-- `r` is the rounding of `x` under `m`, with the sign of `x`, or `zs` if `x` is zero. -/
def Rounds (m : Mode) (x : ℝ) (zs : Bool) (r : Bits) : Prop :=
  RoundsValue m x r ∧ (r.msb = true ↔ x < 0 ∨ (x = 0 ∧ zs = true))

/-- The sign of an exactly zero sum: that of equally signed zeros, else negative only under
rounding down. -/
def sumZeroSign (m : Mode) (a b : Bits) : Bool :=
  if a.msb = b.msb then a.msb else decide (m = .down)

/-! ## The directed relations on ordinals -/

lemma infMag_lt : infMag < 2 ^ 63 := by norm_num [infMag]

/-- Every ordinal between the infinities is that of some pattern. -/
lemma exists_ordinal_eq {z : ℤ} (hlo : -infMag ≤ z) (hhi : z ≤ infMag) :
    ∃ c, ¬IsNaN c ∧ ordinal c = z := by
  have hz : z.natAbs < 2 ^ 63 := by
    have := infMag_lt
    omega
  refine ⟨ofOrdinal false z, ?_, ordinal_ofOrdinal hz⟩
  rw [not_isNaN_iff, ordinal_ofOrdinal hz]
  exact ⟨hlo, hhi⟩

/-- Rounding down brackets `x` between an ordinal and its successor, up to the ends of the
range. -/
theorem roundsDown_iff {x : ℝ} {r : Bits} :
    RoundsDown x r ↔ (-infMag ≤ ordinal r ∧ ordinal r < infMag) ∧
      (ordinal r = -infMag ∨ value r ≤ x) ∧
      (ordinal r = infMag - 1 ∨ x < grid (ordinal r + 1)) := by
  have hpos : (0 : ℤ) < infMag := by norm_num [infMag]
  constructor
  · rintro ⟨hnan, hle, hmax⟩
    have hrange := not_isNaN_iff.mp hnan
    rw [toEReal_le_coe_iff hnan] at hle
    have hlt : ordinal r < infMag := by omega
    refine ⟨⟨hrange.1, hlt⟩, hle.imp_right And.right, ?_⟩
    by_contra hcon
    push Not at hcon
    obtain ⟨hne, hge⟩ := hcon
    obtain ⟨c, hc, hoc⟩ := exists_ordinal_eq (z := ordinal r + 1) (by omega) (by omega)
    have hcx : toEReal c ≤ x := by
      rw [toEReal_le_coe_iff hc, value, hoc]
      exact Or.inr ⟨by omega, hge⟩
    have := (toEReal_le_iff hc hnan).mp (hmax c hc hcx)
    omega
  · rintro ⟨⟨hlo, hhi⟩, hle, hnext⟩
    have hnan : ¬IsNaN r := not_isNaN_iff.mpr ⟨hlo, hhi.le⟩
    refine ⟨hnan, (toEReal_le_coe_iff hnan).mpr (hle.imp_right fun h => ⟨hhi, h⟩), ?_⟩
    intro c hc hcx
    rw [toEReal_le_iff hc hnan]
    rcases (toEReal_le_coe_iff hc).mp hcx with hbot | ⟨htop, hval⟩
    · omega
    · rcases hnext with heq | hlt
      · omega
      · have : grid (ordinal c) < grid (ordinal r + 1) := lt_of_le_of_lt hval hlt
        have := grid_strictMono.lt_iff_lt.mp this
        omega

lemma isNaN_negate {b : Bits} : IsNaN (negate b) ↔ IsNaN b := by
  simp [IsNaN]

lemma isFinite_negate {b : Bits} : IsFinite (negate b) ↔ IsFinite b := by
  simp [IsFinite]

lemma isInf_negate {b : Bits} : IsInf (negate b) ↔ IsInf b := by
  simp [IsInf]

/-- Rounding up is rounding down on the other side of zero. -/
theorem roundsUp_iff_negate {x : ℝ} {r : Bits} :
    RoundsUp x r ↔ RoundsDown (-x) (negate r) := by
  have hneg : ∀ {b : Bits}, toEReal (negate b) ≤ ((-x : ℝ) : EReal) ↔ (x : EReal) ≤ toEReal b := by
    intro b
    rw [toEReal_negate, EReal.coe_neg, EReal.neg_le_neg_iff]
  unfold RoundsUp RoundsDown
  rw [isNaN_negate, hneg]
  refine and_congr_right fun _ => and_congr_right fun _ => ?_
  constructor
  · intro h c hc hcx
    have hcx' : toEReal (negate (negate c)) ≤ ((-x : ℝ) : EReal) := by rwa [negate_negate]
    have hle := h (negate c) (isNaN_negate.not.mpr hc) (hneg.mp hcx')
    rwa [← EReal.neg_le_neg_iff, ← toEReal_negate, ← toEReal_negate, negate_negate] at hle
  · intro h c hc hcx
    have := h (negate c) (isNaN_negate.not.mpr hc) (hneg.mpr hcx)
    rwa [toEReal_negate, toEReal_negate, EReal.neg_le_neg_iff] at this

lemma roundsNearest_negate {x : ℝ} {r : Bits} :
    RoundsNearest (-x) (negate r) ↔ RoundsNearest x r := by
  have hdist : ∀ c, |-x - value (negate c)| = |x - value c| := by
    intro c
    rw [value_negate, ← abs_neg]
    congr 1
    ring
  unfold RoundsNearest
  rw [abs_neg, isInf_negate, isFinite_negate, mag_negate, hdist, value_negate]
  split
  · rfl
  refine and_congr_right fun _ => ?_
  constructor
  · rintro ⟨hmin, heven⟩
    refine ⟨fun c hc => ?_, fun c hc hne heq => ?_⟩
    · rw [← hdist c]
      exact hmin _ (isFinite_negate.mpr hc)
    · refine heven (negate c) (isFinite_negate.mpr hc) ?_ ?_
      · rw [value_negate]
        exact fun h => hne (neg_inj.mp h)
      · rw [hdist, heq]
  · rintro ⟨hmin, heven⟩
    refine ⟨fun c hc => ?_, fun c hc hne heq => ?_⟩
    · rw [← negate_negate c, hdist]
      exact hmin _ (isFinite_negate.mpr hc)
    · refine heven (negate c) (isFinite_negate.mpr hc) ?_ ?_
      · rw [value_negate]
        exact fun h => hne (neg_eq_iff_eq_neg.mp h)
      · rwa [← negate_negate c, hdist] at heq

/-! ## Nearest results -/

lemma RoundsNearest.lt_overflowBound {x : ℝ} {n : Bits} (h : RoundsNearest x n)
    (hn : IsFinite n) : |x| < overflowBound := by
  by_contra hge
  rw [RoundsNearest, if_pos (not_lt.mp hge)] at h
  exact hn.not_isInf h

lemma RoundsNearest.le_dist {x : ℝ} {n : Bits} (h : RoundsNearest x n) (hn : IsFinite n)
    {c : Bits} (hc : IsFinite c) : |x - value n| ≤ |x - value c| := by
  have hbound := h.lt_overflowBound hn
  rw [RoundsNearest, if_neg (not_le.mpr hbound)] at h
  exact h.2.1 c hc

/-- A nearest value is as near as any grid point of the finite range. -/
lemma RoundsNearest.le_dist_grid {x : ℝ} {n : Bits} (h : RoundsNearest x n) (hn : IsFinite n)
    {z : ℤ} (hlo : -infMag < z) (hhi : z < infMag) : |x - value n| ≤ |x - grid z| := by
  obtain ⟨c, -, hoc⟩ := exists_ordinal_eq hlo.le hhi.le
  have hc : IsFinite c := isFinite_iff.mpr (by omega)
  have := h.le_dist hn hc
  rwa [show value c = grid z by rw [value, hoc]] at this

lemma gridUlp_maxFinite : gridUlp 52 (-1074) (infMag - 1) = 2 ^ (971 : ℤ) := by
  norm_num [gridUlp, gridScale, infMag]

lemma grid_maxFinite : grid (infMag - 1) = 2 ^ (1024 : ℤ) - 2 ^ (971 : ℤ) := by
  have h := gridVal_succ (t := 52) (q := -1074) (infMag - 1)
  rw [gridUlp_maxFinite, show infMag - 1 + 1 = infMag by norm_num [infMag]] at h
  have hcast : (infMag : ℤ) - 1 = ((infMag - 1 : ℕ) : ℤ) := by norm_num [infMag]
  rw [hcast, grid_natCast, ← grid_infMag, grid_natCast, h]
  ring

lemma grid_maxFinite_lt : grid (infMag - 1) < overflowBound := by
  rw [grid_maxFinite, overflowBound]
  exact sub_lt_sub_left (zpow_lt_zpow_right₀ (by norm_num) (by norm_num)) _

/-- Stepping up from any ordinal moves by at most one unit of its own last place. -/
lemma grid_succ_le (z : ℤ) : grid (z + 1) ≤ grid z + gridUlp 52 (-1074) z.natAbs := by
  rcases lt_or_ge z 0 with h | h
  · obtain ⟨m, rfl⟩ : ∃ m : ℕ, z = -((m + 1 : ℕ) : ℤ) := ⟨(-z - 1).toNat, by omega⟩
    rw [show -((m + 1 : ℕ) : ℤ) + 1 = -(m : ℤ) by push_cast; ring, grid_neg, grid_neg,
      grid_natCast, grid_natCast, gridVal_succ, Int.natAbs_neg, Int.natAbs_natCast]
    have := gridUlp_mono (t := 52) (q := -1074) (show m ≤ m + 1 by omega)
    linarith
  · obtain ⟨m, rfl⟩ := Int.eq_ofNat_of_zero_le h
    rw [show ((m : ℤ) + 1) = ((m + 1 : ℕ) : ℤ) by push_cast; ring, grid_natCast,
      grid_natCast, gridVal_succ, Int.natAbs_natCast]

/-- The exact result exceeds its nearest value by at most half a unit in the last place. -/
lemma RoundsNearest.sub_le {x : ℝ} {n : Bits} (h : RoundsNearest x n) (hn : IsFinite n) :
    x - value n ≤ gridUlp 52 (-1074) (mag n) / 2 := by
  have hulp := gridUlp_pos (t := 52) (q := -1074) (mag n)
  rcases le_or_gt x (value n) with hle | hgt
  · linarith
  have hfin := isFinite_iff.mp hn
  by_cases htop : ordinal n + 1 = infMag
  · -- above the largest finite value the overflow threshold takes the place of a neighbour
    have hx := lt_of_le_of_lt (le_abs_self x) (h.lt_overflowBound hn)
    have hmag : mag n = infMag - 1 := by
      rw [← natAbs_ordinal n]
      have : (0 : ℤ) < infMag := by norm_num [infMag]
      omega
    rw [hmag, gridUlp_maxFinite, value, show ordinal n = infMag - 1 by omega, grid_maxFinite]
    rw [overflowBound] at hx
    have hdouble : (2 : ℝ) ^ (971 : ℤ) = 2 ^ (970 : ℤ) * 2 := by
      rw [← zpow_add_one₀ (by norm_num)]
      rfl
    generalize (2 : ℝ) ^ (1024 : ℤ) = a at hx ⊢
    rw [hdouble]
    generalize (2 : ℝ) ^ (970 : ℤ) = b at hx ⊢
    linarith
  · have hdist := h.le_dist_grid hn (z := ordinal n + 1) (by omega) (by omega)
    have hstep := grid_succ_le (ordinal n)
    rw [natAbs_ordinal] at hstep
    have hnext : x ≤ grid (ordinal n + 1) := by
      by_contra hlt
      have hmono : grid (ordinal n) < grid (ordinal n + 1) := grid_strictMono (by omega)
      rw [abs_of_pos (by linarith), abs_of_pos (by linarith), value] at hdist
      linarith
    rw [abs_of_pos (by linarith), abs_of_nonpos (by linarith), value] at hdist
    rw [value]
    linarith

/-- A nearest value is within half a unit in its last place of the exact result. -/
theorem RoundsNearest.abs_sub_le {x : ℝ} {n : Bits} (h : RoundsNearest x n)
    (hn : IsFinite n) : |x - value n| ≤ gridUlp 52 (-1074) (mag n) / 2 := by
  have hneg := (roundsNearest_negate.mpr h).sub_le (isFinite_negate.mpr hn)
  rw [value_negate, mag_negate] at hneg
  have hpos := h.sub_le hn
  rw [abs_le]
  constructor <;> linarith

/-! ## Directed results from a nearest one -/

/-- The nearest value is the rounding down of anything at or above it. -/
theorem RoundsNearest.roundsDown {x : ℝ} {n : Bits} (h : RoundsNearest x n)
    (hn : IsFinite n) (hle : value n ≤ x) : RoundsDown x n := by
  have hfin := isFinite_iff.mp hn
  refine roundsDown_iff.mpr ⟨⟨by omega, hfin.2⟩, Or.inr hle, ?_⟩
  by_cases htop : ordinal n = infMag - 1
  · exact Or.inl htop
  right
  by_contra hge
  have hdist := h.le_dist_grid hn (z := ordinal n + 1) (by omega) (by omega)
  have hmono : grid (ordinal n) < grid (ordinal n + 1) := grid_strictMono (by omega)
  rw [abs_of_nonneg (by linarith), abs_of_nonneg (by linarith), value] at hdist
  linarith

/-- Below a nearest value the rounding down is its predecessor. -/
theorem RoundsNearest.roundsDown_pred {x : ℝ} {n p : Bits} (h : RoundsNearest x n)
    (hn : IsFinite n) (hlt : x < value n) (hp : ordinal p = ordinal n - 1) :
    RoundsDown x p := by
  have hfin := isFinite_iff.mp hn
  refine roundsDown_iff.mpr ⟨⟨by omega, by omega⟩, ?_, Or.inr ?_⟩
  · by_cases hbot : ordinal p = -infMag
    · exact Or.inl hbot
    right
    by_contra hge
    have hdist := h.le_dist_grid hn (z := ordinal p) (by omega) (by omega)
    have hmono : grid (ordinal p) < grid (ordinal n) := grid_strictMono (by omega)
    rw [value] at hge
    rw [value] at hlt hdist
    rw [abs_of_neg (by linarith), abs_of_neg (by linarith)] at hdist
    linarith
  · rwa [hp, sub_add_cancel]

/-- The nearest value is the rounding up of anything at or below it. -/
theorem RoundsNearest.roundsUp {x : ℝ} {n : Bits} (h : RoundsNearest x n)
    (hn : IsFinite n) (hle : x ≤ value n) : RoundsUp x n :=
  roundsUp_iff_negate.mpr <| (roundsNearest_negate.mpr h).roundsDown (isFinite_negate.mpr hn)
    (by rw [value_negate]; linarith)

/-- Above a nearest value the rounding up is its successor. -/
theorem RoundsNearest.roundsUp_succ {x : ℝ} {n p : Bits} (h : RoundsNearest x n)
    (hn : IsFinite n) (hlt : value n < x) (hp : ordinal p = ordinal n + 1) :
    RoundsUp x p :=
  roundsUp_iff_negate.mpr <| (roundsNearest_negate.mpr h).roundsDown_pred
    (isFinite_negate.mpr hn) (by rw [value_negate]; linarith)
    (by rw [ordinal_negate, ordinal_negate, hp]; ring)

/-- Beyond the overflow threshold the rounding down is the largest finite value. -/
theorem roundsDown_maxFinite {x : ℝ} (hx : overflowBound ≤ x) {r : Bits}
    (hr : ordinal r = infMag - 1) : RoundsDown x r := by
  have hpos : (0 : ℤ) < infMag := by norm_num [infMag]
  refine roundsDown_iff.mpr ⟨⟨by omega, by omega⟩, Or.inr ?_, Or.inl hr⟩
  rw [value, hr]
  linarith [grid_maxFinite_lt]

/-- Beyond the negative overflow threshold the rounding down is minus infinity. -/
theorem roundsDown_negInf {x : ℝ} (hx : x ≤ -overflowBound) {r : Bits}
    (hr : ordinal r = -infMag) : RoundsDown x r := by
  have hpos : (0 : ℤ) < infMag := by norm_num [infMag]
  refine roundsDown_iff.mpr ⟨⟨by omega, by omega⟩, Or.inl hr, Or.inr ?_⟩
  rw [hr, show (-infMag + 1 : ℤ) = -(infMag - 1) by ring, grid_neg]
  linarith [grid_maxFinite_lt]

theorem roundsUp_posInf {x : ℝ} (hx : overflowBound ≤ x) {r : Bits}
    (hr : ordinal r = infMag) : RoundsUp x r :=
  roundsUp_iff_negate.mpr <| roundsDown_negInf (by linarith) (by rw [ordinal_negate, hr])

theorem roundsUp_minFinite {x : ℝ} (hx : x ≤ -overflowBound) {r : Bits}
    (hr : ordinal r = -(infMag - 1)) : RoundsUp x r :=
  roundsUp_iff_negate.mpr <| roundsDown_maxFinite (by linarith)
    (by rw [ordinal_negate, hr]; ring)

end RandomXSp1.Ieee
