import RandomXSp1.Ieee.Rounding

/-!
# Rounding as a function

Every real has exactly one rounding under each attribute, so `Rounds` is the graph of a
function, `round`. Rounding is monotone in the form the bounds of a computation need: it
never crosses a finite value of the format.
-/

namespace RandomXSp1.Ieee

/-! ## Rounding never crosses a finite value -/

lemma RoundsDown.le_ordinal {x : ℝ} {r : Bits} (h : RoundsDown x r) {z : ℤ}
    (hz : z < infMag) (hle : grid z ≤ x) : z ≤ ordinal r := by
  obtain ⟨-, -, htop | hlt⟩ := roundsDown_iff.mp h
  · omega
  · have := grid_strictMono.lt_iff_lt.mp (lt_of_le_of_lt hle hlt)
    omega

lemma RoundsDown.ordinal_le {x : ℝ} {r : Bits} (h : RoundsDown x r) {z : ℤ}
    (hz : -infMag < z) (hle : x ≤ grid z) : ordinal r ≤ z := by
  obtain ⟨-, hbot | hval, -⟩ := roundsDown_iff.mp h
  · omega
  · exact grid_strictMono.le_iff_le.mp (hval.trans hle)

lemma RoundsUp.le_ordinal {x : ℝ} {r : Bits} (h : RoundsUp x r) {z : ℤ}
    (hz : z < infMag) (hle : grid z ≤ x) : z ≤ ordinal r := by
  have := (roundsUp_iff_negate.mp h).ordinal_le (z := -z) (by omega)
    (by rw [grid_neg]; linarith)
  rw [ordinal_negate] at this
  omega

lemma RoundsNearest.le_ordinal_of_isFinite {x : ℝ} {r : Bits} (h : RoundsNearest x r)
    (hr : IsFinite r) {z : ℤ} (hlo : -infMag < z) (hz : z < infMag) (hle : grid z ≤ x) :
    z ≤ ordinal r := by
  by_contra hlt
  have hdist := h.le_dist_grid hr hlo hz
  have hmono : grid (ordinal r) < grid z := grid_strictMono (by omega)
  rw [value, abs_of_nonneg (by linarith), abs_of_nonneg (by linarith)] at hdist
  linarith

lemma overflowBound_pos : 0 < overflowBound := by
  rw [overflowBound, sub_pos]
  exact zpow_lt_zpow_right₀ (by norm_num) (by norm_num)

/-- A finite value below `x` is not above the rounding of `x`. -/
theorem Rounds.le_ordinal {m : Mode} {x : ℝ} {zs : Bool} {r : Bits} (h : Rounds m x zs r)
    {z : ℤ} (hlo : -infMag < z) (hz : z < infMag) (hle : grid z ≤ x) : z ≤ ordinal r := by
  obtain ⟨hval, hsign⟩ := h
  cases m with
  | down => exact RoundsDown.le_ordinal hval hz hle
  | up => exact RoundsUp.le_ordinal hval hz hle
  | towardZero =>
    simp only [RoundsValue] at hval
    split at hval
    · exact hval.le_ordinal hz hle
    · exact hval.le_ordinal hz hle
  | nearestEven =>
    by_cases hbig : overflowBound ≤ |x|
    · have hinf : IsInf r := by
        simp only [RoundsValue, RoundsNearest, if_pos hbig] at hval
        exact hval
      rcases lt_or_ge x 0 with hx | hx
      · -- no finite value lies below a negative overflow
        rw [abs_of_neg hx] at hbig
        have hmin : grid (-(infMag - 1)) ≤ grid z := grid_strictMono.monotone (by omega)
        rw [grid_neg] at hmin
        linarith [grid_maxFinite_lt]
      · have hpos : x ≠ 0 := by
          rintro rfl
          rw [abs_zero] at hbig
          linarith [overflowBound_pos]
        have hmsb : r.msb = false := by
          rw [← Bool.not_eq_true, hsign]
          rintro (hneg | ⟨h0, -⟩)
          · linarith
          · exact hpos h0
        rw [ordinal_of_pos hmsb, show mag r = infMag from hinf]
        omega
    · have hfin : IsFinite r := by
        simp only [RoundsValue, RoundsNearest, if_neg hbig] at hval
        exact hval.1
      exact RoundsNearest.le_ordinal_of_isFinite hval hfin hlo hz hle

/-- The attribute that rounds `-x` as `m` rounds `x`. -/
def Mode.reverse : Mode → Mode
  | .nearestEven => .nearestEven
  | .down => .up
  | .up => .down
  | .towardZero => .towardZero

lemma roundsValue_negate {m : Mode} {x : ℝ} {r : Bits} (hx : m = .towardZero → x ≠ 0)
    (h : RoundsValue m x r) : RoundsValue m.reverse (-x) (negate r) := by
  cases m with
  | nearestEven => exact roundsNearest_negate.mpr h
  | down =>
    refine roundsUp_iff_negate.mpr ?_
    rw [neg_neg, negate_negate]
    exact h
  | up => exact roundsUp_iff_negate.mp h
  | towardZero =>
    have hx0 := hx rfl
    simp only [RoundsValue, Mode.reverse] at h ⊢
    rcases lt_or_gt_of_ne hx0 with hneg | hpos
    · rw [if_pos (by linarith)]
      rw [if_neg (by linarith)] at h
      exact roundsUp_iff_negate.mp h
    · rw [if_neg (by linarith)]
      rw [if_pos hpos.le] at h
      exact roundsUp_iff_negate.mpr (by simpa using h)

/-- A finite value above `x` is not below the rounding of `x`. -/
theorem Rounds.ordinal_le {m : Mode} {x : ℝ} {zs : Bool} {r : Bits} (h : Rounds m x zs r)
    {z : ℤ} (hlo : -infMag < z) (hz : z < infMag) (hle : x ≤ grid z) : ordinal r ≤ z := by
  by_cases hx : m = .towardZero ∧ x = 0
  · obtain ⟨rfl, rfl⟩ := hx
    have hval : RoundsDown 0 r := by simpa [RoundsValue] using h.1
    exact hval.ordinal_le hlo hle
  · have hneg : Rounds m.reverse (-x) (!zs) (negate r) := by
      refine ⟨roundsValue_negate (by tauto) h.1, ?_⟩
      have hsign := h.2
      rw [msb_negate, Bool.not_eq_true']
      rw [← Bool.not_eq_true, hsign, Bool.not_eq_true']
      rcases lt_trichotomy x 0 with hx0 | hx0 | hx0
      · simp [hx0, hx0.ne, hx0.le]
      · simp [hx0]
      · simp [hx0, hx0.ne', not_lt.mpr hx0.le]
    have := hneg.le_ordinal (z := -z) (by omega) (by omega) (by rw [grid_neg]; linarith)
    rw [ordinal_negate] at this
    omega

lemma Rounds.not_isNaN {m : Mode} {x : ℝ} {zs : Bool} {r : Bits} (h : Rounds m x zs r) :
    ¬IsNaN r := by
  obtain ⟨hval, -⟩ := h
  cases m with
  | down => exact hval.1
  | up => exact hval.1
  | towardZero =>
    simp only [RoundsValue] at hval
    split at hval <;> exact hval.1
  | nearestEven =>
    simp only [RoundsValue, RoundsNearest] at hval
    split at hval
    · exact hval.not_isNaN
    · exact hval.1.not_isNaN

lemma Rounds.isInf {m : Mode} {x : ℝ} {zs : Bool} {r : Bits} (h : Rounds m x zs r)
    (hfin : ¬IsFinite r) : IsInf r := by
  have hnan := h.not_isNaN
  unfold IsNaN at hnan
  unfold IsFinite at hfin
  unfold IsInf
  omega

/-! ## Uniqueness -/

lemma RoundsDown.unique {x : ℝ} {r s : Bits} (hr : RoundsDown x r) (hs : RoundsDown x s) :
    ordinal r = ordinal s := by
  have hle : ∀ {r s : Bits}, RoundsDown x r → RoundsDown x s → ordinal r ≤ ordinal s := by
    intro r s hr hs
    exact (toEReal_le_iff hr.1 hs.1).mp (hs.2.2 r hr.1 hr.2.1)
  exact le_antisymm (hle hr hs) (hle hs hr)

lemma RoundsUp.unique {x : ℝ} {r s : Bits} (hr : RoundsUp x r) (hs : RoundsUp x s) :
    ordinal r = ordinal s := by
  have := (roundsUp_iff_negate.mp hr).unique (roundsUp_iff_negate.mp hs)
  rwa [ordinal_negate, ordinal_negate, neg_inj] at this

/-- Two grid points equally near to `x`, with none nearer between them, are adjacent. -/
lemma adjacent_of_tie {x : ℝ} {y z : ℤ} (hyz : y < z)
    (hmin : ∀ w, y < w → w < z → |x - grid y| ≤ |x - grid w|)
    (htie : |x - grid z| = |x - grid y|) : z = y + 1 := by
  by_contra hne
  have h1 : grid y < grid (y + 1) := grid_strictMono (by omega)
  have h2 : grid (y + 1) < grid z := grid_strictMono (by omega)
  have hmid := hmin (y + 1) (by omega) (by omega)
  rcases abs_eq_abs.mp htie with heq | heq
  · linarith
  · -- `x` is the midpoint, so `y + 1` is strictly nearer
    have hlt : |x - grid (y + 1)| < |x - grid y| := by
      rw [abs_of_pos (show 0 < x - grid y by linarith), abs_lt]
      constructor <;> linarith
    linarith

lemma RoundsNearest.unique {x : ℝ} {r s : Bits} (hr : RoundsNearest x r)
    (hs : RoundsNearest x s) (hsign : r.msb = s.msb) : r = s := by
  by_cases hbig : overflowBound ≤ |x|
  · rw [RoundsNearest, if_pos hbig] at hr hs
    exact eq_of_msb_mag hsign (hr.trans hs.symm)
  have hfr : IsFinite r := by
    rw [RoundsNearest, if_neg hbig] at hr
    exact hr.1
  have hfs : IsFinite s := by
    rw [RoundsNearest, if_neg hbig] at hs
    exact hs.1
  have htie : |x - value r| = |x - value s| := le_antisymm (hr.le_dist hfr hfs) (hs.le_dist hfs hfr)
  refine eq_of_ordinal_msb ?_ hsign
  by_contra hne
  have hvne : value r ≠ value s := fun h => hne (value_eq_iff.mp h)
  have hevenr : mag r % 2 = 0 := by
    rw [RoundsNearest, if_neg hbig] at hr
    exact hr.2.2 s hfs hvne.symm htie.symm
  have hevens : mag s % 2 = 0 := by
    rw [RoundsNearest, if_neg hbig] at hs
    exact hs.2.2 r hfr hvne htie
  have hor := isFinite_iff.mp hfr
  have hos := isFinite_iff.mp hfs
  have hmr := natAbs_ordinal r
  have hms := natAbs_ordinal s
  rcases lt_or_gt_of_ne hne with hlt | hlt
  · have := adjacent_of_tie hlt (fun w h1 h2 => hr.le_dist_grid hfr (by omega) (by omega)) htie.symm
    omega
  · have := adjacent_of_tie hlt (fun w h1 h2 => hs.le_dist_grid hfs (by omega) (by omega)) htie
    omega

/-- A real has at most one rounding. -/
theorem Rounds.unique {m : Mode} {x : ℝ} {zs : Bool} {r s : Bits} (hr : Rounds m x zs r)
    (hs : Rounds m x zs s) : r = s := by
  have hsign : r.msb = s.msb := Bool.eq_iff_iff.mpr (hr.2.trans hs.2.symm)
  obtain ⟨hvr, -⟩ := hr
  obtain ⟨hvs, -⟩ := hs
  cases m with
  | nearestEven => exact RoundsNearest.unique hvr hvs hsign
  | down => exact eq_of_ordinal_msb (RoundsDown.unique hvr hvs) hsign
  | up => exact eq_of_ordinal_msb (RoundsUp.unique hvr hvs) hsign
  | towardZero =>
    simp only [RoundsValue] at hvr hvs
    split at hvr
    · rw [if_pos (by assumption)] at hvs
      exact eq_of_ordinal_msb (hvr.unique hvs) hsign
    · rw [if_neg (by assumption)] at hvs
      exact eq_of_ordinal_msb (hvr.unique hvs) hsign

/-! ## Existence -/

/-- The ordinal that brackets `x` from below, with the ends of the range in place of missing
bounds. -/
lemma exists_floor_ordinal (x : ℝ) :
    ∃ z : ℤ, (-infMag ≤ z ∧ z < infMag) ∧ (z = -infMag ∨ grid z ≤ x) ∧
      (z = infMag - 1 ∨ x < grid (z + 1)) := by
  have hpos : (0 : ℤ) < infMag := by norm_num [infMag]
  obtain ⟨z, hz, hmax⟩ := Int.exists_greatest_of_bdd
    (P := fun z => (-infMag ≤ z ∧ z < infMag) ∧ (z = -infMag ∨ grid z ≤ x))
    ⟨infMag, fun z hz => hz.1.2.le⟩ ⟨-infMag, ⟨le_rfl, by omega⟩, Or.inl rfl⟩
  refine ⟨z, hz.1, hz.2, ?_⟩
  by_contra hcon
  push Not at hcon
  have := hmax (z + 1) ⟨⟨by omega, by omega⟩, Or.inr hcon.2⟩
  omega

/-- The pattern with ordinal `z` and the sign a rounding of `x` must have. -/
lemma exists_ordinal_eq_signed (x : ℝ) (zs : Bool) {z : ℤ} (hlo : -infMag ≤ z)
    (hhi : z ≤ infMag) (hneg : z < 0 → x < 0) (hpos : 0 < z → 0 < x) :
    ∃ r, ordinal r = z ∧ (r.msb = true ↔ x < 0 ∨ (x = 0 ∧ zs = true)) := by
  have hz : z.natAbs < 2 ^ 63 := by
    have := infMag_lt
    omega
  classical
  refine ⟨ofOrdinal (decide (x < 0 ∨ (x = 0 ∧ zs = true))) z, ordinal_ofOrdinal hz, ?_⟩
  rw [msb_ofOrdinal hz]
  rcases lt_trichotomy z 0 with h | rfl | h
  · simp [h, h.ne, hneg h]
  · simp
  · have hx := hpos h
    simp [h.ne', not_lt.mpr h.le, not_lt.mpr hx.le, hx.ne']

lemma exists_roundsDown (x : ℝ) (zs : Bool) :
    ∃ r, RoundsDown x r ∧ (r.msb = true ↔ x < 0 ∨ (x = 0 ∧ zs = true)) := by
  obtain ⟨z, hrange, hle, hnext⟩ := exists_floor_ordinal x
  have hpos : (1 : ℤ) < infMag := by norm_num [infMag]
  obtain ⟨r, hr, hsign⟩ := exists_ordinal_eq_signed x zs hrange.1 hrange.2.le
    (fun hz => by
      rcases hnext with h | h
      · omega
      · have : grid (z + 1) ≤ grid 0 := grid_strictMono.monotone (by omega)
        rw [grid_zero] at this
        linarith)
    (fun hz => by
      rcases hle with h | h
      · omega
      · have : grid 0 < grid z := grid_strictMono hz
        rw [grid_zero] at this
        linarith)
  exact ⟨r, roundsDown_iff.mpr ⟨by omega, by rw [value, hr]; exact hle, by rw [hr]; exact hnext⟩,
    hsign⟩

lemma exists_roundsUp (x : ℝ) (zs : Bool) :
    ∃ r, RoundsUp x r ∧ (r.msb = true ↔ x < 0 ∨ (x = 0 ∧ zs = true)) := by
  obtain ⟨r, hr, hsign⟩ := exists_roundsDown (-x) (!zs)
  refine ⟨negate r, roundsUp_iff_negate.mpr (by rwa [negate_negate]), ?_⟩
  rw [msb_negate, Bool.not_eq_true', ← Bool.not_eq_true, hsign]
  rcases lt_trichotomy x 0 with hx | hx | hx
  · simp [hx, hx.le, hx.ne]
  · simp [hx]
  · simp [hx, hx.ne', hx.le]

lemma exists_roundsNearest (x : ℝ) (zs : Bool) :
    ∃ r, RoundsNearest x r ∧ (r.msb = true ↔ x < 0 ∨ (x = 0 ∧ zs = true)) := by
  have hinf : (1 : ℤ) < infMag := by norm_num [infMag]
  by_cases hbig : overflowBound ≤ |x|
  · obtain ⟨z, hz⟩ : ∃ z : ℤ, (0 ≤ x ∧ z = infMag) ∨ (x < 0 ∧ z = -infMag) := by
      rcases lt_or_ge x 0 with h | h
      · exact ⟨_, Or.inr ⟨h, rfl⟩⟩
      · exact ⟨_, Or.inl ⟨h, rfl⟩⟩
    have hx0 : x ≠ 0 := by
      rintro rfl
      rw [abs_zero] at hbig
      linarith [overflowBound_pos]
    obtain ⟨r, hr, hsign⟩ := exists_ordinal_eq_signed x zs (z := z)
      (by omega) (by omega) (fun h => by rcases hz with h' | h' <;> [omega; exact h'.1])
      (fun h => by
        rcases hz with h' | h'
        · exact lt_of_le_of_ne h'.1 (Ne.symm hx0)
        · omega)
    refine ⟨r, ?_, hsign⟩
    rw [RoundsNearest, if_pos hbig, IsInf, ← natAbs_ordinal r]
    omega
  · -- a point of least distance, the even one of two
    obtain ⟨y, hy, hmin⟩ := Finset.exists_min_image (Finset.Ioo (-(infMag : ℤ)) infMag)
      (fun z => |x - grid z|) ⟨0, by rw [Finset.mem_Ioo]; omega⟩
    obtain ⟨z, hz, hdist, heven⟩ : ∃ z ∈ Finset.Ioo (-(infMag : ℤ)) infMag,
        |x - grid z| = |x - grid y| ∧
          ∀ w ∈ Finset.Ioo (-(infMag : ℤ)) infMag, w ≠ z → |x - grid w| = |x - grid z| →
            z.natAbs % 2 = 0 := by
      by_cases htie : ∃ z ∈ Finset.Ioo (-(infMag : ℤ)) infMag,
          z ≠ y ∧ |x - grid z| = |x - grid y|
      · obtain ⟨z, hz, hne, heq⟩ := htie
        rw [Finset.mem_Ioo] at hy hz
        have hadj : z = y + 1 ∨ y = z + 1 := by
          rcases lt_or_gt_of_ne hne with h | h
          · refine Or.inr (adjacent_of_tie h (fun w h1 h2 => ?_) heq.symm)
            rw [heq]
            exact hmin w (Finset.mem_Ioo.mpr ⟨by omega, by omega⟩)
          · exact Or.inl (adjacent_of_tie h
              (fun w h1 h2 => hmin w (Finset.mem_Ioo.mpr ⟨by omega, by omega⟩)) heq)
        by_cases hpar : z.natAbs % 2 = 0
        · exact ⟨z, Finset.mem_Ioo.mpr hz, heq, fun _ _ _ _ => hpar⟩
        · exact ⟨y, Finset.mem_Ioo.mpr hy, rfl, fun _ _ _ _ => by omega⟩
      · exact ⟨y, hy, rfl, fun w hw hne heq => absurd ⟨w, hw, hne, heq⟩ htie⟩
    rw [Finset.mem_Ioo] at hz
    have hmin0 := hmin 0 (Finset.mem_Ioo.mpr (by omega))
    rw [← hdist, grid_zero, sub_zero] at hmin0
    obtain ⟨r, hr, hsign⟩ := exists_ordinal_eq_signed x zs (z := z)
      (by omega) (by omega)
      (fun h => by
        have hg : grid z < 0 := by simpa using grid_strictMono h
        by_contra hx
        rw [abs_of_nonneg (by linarith), abs_of_nonneg (by linarith)] at hmin0
        linarith)
      (fun h => by
        have hg : 0 < grid z := by simpa using grid_strictMono h
        by_contra hx
        rw [abs_of_neg (by linarith), abs_of_nonpos (by linarith)] at hmin0
        linarith)
    refine ⟨r, ?_, hsign⟩
    rw [RoundsNearest, if_neg hbig]
    refine ⟨isFinite_iff.mpr (by omega), fun c hc => ?_, fun c hc hne heq => ?_⟩
    · rw [value, value, hr, hdist]
      have := isFinite_iff.mp hc
      exact hmin _ (Finset.mem_Ioo.mpr (by omega))
    · have := isFinite_iff.mp hc
      rw [← natAbs_ordinal r, hr]
      rw [value, value, hr] at heq
      refine heven (ordinal c) (Finset.mem_Ioo.mpr (by omega)) ?_ heq
      rintro rfl
      exact hne (value_eq_iff.mpr hr.symm)

theorem exists_rounds (m : Mode) (x : ℝ) (zs : Bool) : ∃ r, Rounds m x zs r := by
  cases m with
  | nearestEven => exact exists_roundsNearest x zs
  | down => exact exists_roundsDown x zs
  | up => exact exists_roundsUp x zs
  | towardZero =>
    simp only [Rounds, RoundsValue]
    split
    · exact exists_roundsDown x zs
    · exact exists_roundsUp x zs

/-- The rounding of `x` under `m`, with the sign `zs` on an exact zero. -/
noncomputable def round (m : Mode) (x : ℝ) (zs : Bool) : Bits :=
  Classical.choose (exists_rounds m x zs)

theorem rounds_round (m : Mode) (x : ℝ) (zs : Bool) : Rounds m x zs (round m x zs) :=
  Classical.choose_spec (exists_rounds m x zs)

/-- `Rounds` is the graph of `round`. -/
theorem rounds_iff {m : Mode} {x : ℝ} {zs : Bool} {r : Bits} :
    Rounds m x zs r ↔ r = round m x zs :=
  ⟨fun h => h.unique (rounds_round m x zs), fun h => h ▸ rounds_round m x zs⟩

end RandomXSp1.Ieee
