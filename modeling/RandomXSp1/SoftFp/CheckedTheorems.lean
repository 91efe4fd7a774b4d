import RandomXSp1.SoftFp.Checked
import RandomXSp1.SoftFp.CorrectRounding

/-!
# Exactness of the integer comparisons

On finite operands the checked operations run to the end and return what the unchecked ones do,
and each call of `compare_nearby_scaled` orders the two magnitudes as the reals
`coefficient * 2 ^ scale`. Beyond the alignment bound the nearest sum is the larger operand.
-/

namespace RandomXSp1.SoftFp.Checked

open Ieee

/-- The ordering is the one of the values. -/
def Call.Exact (call : Call) : Prop := call.ordering = compare call.a.toReal call.b.toReal

/-- A checked computation runs to the end with `value`, through exact comparisons only. -/
def RunsExactly {α : Type} (run : Option (List Call × α)) (value : α) : Prop :=
  ∃ calls, run = some (calls, value) ∧ ∀ call ∈ calls, call.Exact

lemma RunsExactly.none {α : Type} (value : α) : RunsExactly (some ([], value)) value :=
  ⟨[], rfl, by simp⟩

lemma RunsExactly.one {α : Type} {call : Call} (h : call.Exact) (value : α) :
    RunsExactly (some ([call], value)) value :=
  ⟨[call], rfl, by simpa using h⟩

/-! ## The parts -/

lemma magnitude_eq_some {b : U64} (h : IsFinite b) : magnitude b = some (SoftFp.magnitude b) := by
  have hexp : ((b &&& expMask) >>> 52).toNat ≠ 0x7ff := by
    rw [toNat_exponent]
    unfold IsFinite infMag at h
    omega
  exact guard_bind hexp _

lemma shl128_eq_some {value shift : ℕ} (hs : shift < 128) (h : value * 2 ^ shift < 2 ^ 128) :
    shl128 value shift = some (value * 2 ^ shift) :=
  if_pos ⟨hs, h⟩

lemma shl128_align_eq_some {m : Magnitude} {s : ℤ} (hm : m.coefficient ≠ 0) (hs : s ≤ m.scale)
    (h : m.toReal < 2 ^ 128 * 2 ^ s) :
    shl128 m.coefficient (asU32 (m.scale - s)) =
      some (SoftFp.shl128 m.coefficient (asU32 (m.scale - s))) := by
  obtain ⟨d, -, hu32, hd, hlt, -⟩ := exists_align hm hs h
  rw [hu32, shl128_eq_some hd hlt, shl128_eq hd hlt]

/-- Comparable magnitudes are aligned without losing a bit. -/
lemma compareNearbyScaled_eq_some {a b : Magnitude} (h : Comparable a b) :
    compareNearbyScaled a b = some ⟨a, b, SoftFp.compareNearbyScaled a b⟩ := by
  rw [compareNearbyScaled, SoftFp.compareNearbyScaled]
  by_cases h0 : a.coefficient = 0 ∨ b.coefficient = 0
  · simp only [if_pos h0, Option.pure_def]
  · push Not at h0
    obtain ⟨hab, hba⟩ := h h0.1 h0.2
    simp only [h0.1, h0.2, or_self, if_false]
    rcases lt_trichotomy a.scale b.scale with hs | hs | hs
    · rw [compare_lt_iff_lt.mpr hs]
      simp [shl128_align_eq_some h0.2 hs.le hba]
    · rw [compare_eq_iff_eq.mpr hs]
      rfl
    · rw [compare_gt_iff_gt.mpr hs]
      simp [shl128_align_eq_some h0.1 hs.le hab]

lemma exact_of_comparable {a b : Magnitude} (h : Comparable a b) :
    Call.Exact ⟨a, b, SoftFp.compareNearbyScaled a b⟩ :=
  compareNearbyScaled_eq h

lemma multiplyMagnitudes_eq_some (a b : U64) :
    multiplyMagnitudes (SoftFp.magnitude a) (SoftFp.magnitude b) =
      some (SoftFp.multiplyMagnitudes (SoftFp.magnitude a) (SoftFp.magnitude b)) := by
  have hlt := coefficient_mul_lt a b
  rw [multiplyMagnitudes, checkedMul_eq hlt, SoftFp.multiplyMagnitudes, Nat.mod_eq_of_lt hlt]
  rfl

/-! ## Sums -/

section
variable {combine : ℕ → ℕ → Option ℕ} {far : Ordering} {p r n : U64}

lemma magnitudeRelation_near {coefficient : ℕ}
    (hd : asU32 ((SoftFp.magnitude p).scale - (SoftFp.magnitude r).scale) ≤ maxAlignment)
    (hcombine : combine (alignedCoefficient p r) (SoftFp.magnitude r).coefficient =
      some coefficient)
    (hfin : IsFinite n)
    (h : Comparable ⟨coefficient, (SoftFp.magnitude r).scale⟩ (SoftFp.magnitude n)) :
    RunsExactly
      (magnitudeRelation combine far (SoftFp.magnitude p) (SoftFp.magnitude r) n)
      (SoftFp.compareNearbyScaled ⟨coefficient, (SoftFp.magnitude r).scale⟩
        (SoftFp.magnitude n)) := by
  have hlt := alignedCoefficient_lt hd
  have hshl : shl128 (SoftFp.magnitude p).coefficient
      (asU32 ((SoftFp.magnitude p).scale - (SoftFp.magnitude r).scale)) =
        some (alignedCoefficient p r) :=
    shl128_eq_some (lt_of_le_of_lt hd (by norm_num [maxAlignment]))
      (lt_of_le_of_lt (Nat.le_add_right _ _) hlt)
  simp only [magnitudeRelation, if_pos hd, hshl, hcombine, magnitude_eq_some hfin,
    compareNearbyScaled_eq_some h, Option.bind_eq_bind, Option.bind_some, Option.pure_def]
  exact RunsExactly.one (exact_of_comparable h) _

lemma magnitudeRelation_far
    (hd : ¬asU32 ((SoftFp.magnitude p).scale - (SoftFp.magnitude r).scale) ≤ maxAlignment)
    (hfin : IsFinite n) (h : SoftFp.magnitude n = SoftFp.magnitude p) :
    RunsExactly
      (magnitudeRelation combine far (SoftFp.magnitude p) (SoftFp.magnitude r) n) far := by
  simp only [magnitudeRelation, if_neg hd, magnitude_eq_some hfin, h]
  rw [Option.bind_eq_bind, Option.bind_some, guard_bind rfl, guard_bind rfl]
  exact RunsExactly.none far

/-- Far from the smaller operand, the nearest sum is the larger one. -/
lemma eq_of_far (hn : RoundsNearest (value p + value r) n) (hfin : IsFinite n)
    (hpfin : IsFinite p) (hfar : (SoftFp.magnitude r).scale + 75 < (SoftFp.magnitude p).scale) :
    n = p := by
  have hv := value_eq_of_far hn hfin (by rw [add_sub_cancel_left]) hpfin hfar
  have ho := value_eq_iff.mp hv
  apply eq_of_ordinal_msb ho
  -- the larger operand is not zero, so its ordinal carries its sign
  have hp : mag p ≠ 0 := by
    intro h0
    rw [magnitude_eq, magnitude_eq, h0] at hfar
    simp only [gridScale] at hfar
    omega
  have hmag : mag n = mag p := by rw [← natAbs_ordinal, ho, natAbs_ordinal]
  rw [Bool.eq_iff_iff, ← value_neg_iff hp, ← value_neg_iff (by omega), hv]

/-- Operands of one sign, `p` the one of the larger scale. -/
lemma sameSign_runsExactly (hr : mag r ≠ 0) (hpfin : IsFinite p) (hs : p.msb = r.msb)
    (hscale : (SoftFp.magnitude r).scale ≤ (SoftFp.magnitude p).scale)
    (hn : RoundsNearest (value p + value r) n) (hfin : IsFinite n) :
    RunsExactly
      (magnitudeRelation (checkedAdd 128) .gt (SoftFp.magnitude p) (SoftFp.magnitude r) n)
      (compare |value p + value r| |value n|) := by
  by_cases hd : asU32 ((SoftFp.magnitude p).scale - (SoftFp.magnitude r).scale) ≤ maxAlignment
  · have hcomparable := comparable_alignedSum hpfin hs hscale hd hn hfin
    rw [← compareNearbyScaled_nearest (toReal_alignedSum hs hscale) hcomparable]
    exact magnitudeRelation_near hd (checkedAdd_eq (alignedSum_lt hd)) hfin hcomparable
  · rw [← sameSign_relation hr hpfin hs hscale hn hfin, if_neg hd]
    apply magnitudeRelation_far hd hfin
    rw [eq_of_far hn hfin hpfin (lt_scale_of_not_distance hscale hd)]

/-- Operands of opposite signs, `p` the one of the larger magnitude. -/
lemma oppositeSign_runsExactly (hr : mag r ≠ 0) (hpfin : IsFinite p) (hs : p.msb ≠ r.msb)
    (hmag : mag r ≤ mag p) (hn : RoundsNearest (value p + value r) n) (hfin : IsFinite n) :
    RunsExactly
      (magnitudeRelation checkedSub .lt (SoftFp.magnitude p) (SoftFp.magnitude r) n)
      (compare |value p + value r| |value n|) := by
  by_cases hd : asU32 ((SoftFp.magnitude p).scale - (SoftFp.magnitude r).scale) ≤ maxAlignment
  · have hcomparable := comparable_alignedDifference hpfin hs hmag hd hn hfin
    rw [← compareNearbyScaled_nearest (toReal_alignedDifference hs hmag) hcomparable]
    exact magnitudeRelation_near hd (checkedSub_eq (coefficient_le_alignedCoefficient hmag)) hfin
      hcomparable
  · rw [← oppositeSign_relation hr hpfin hs hmag hn hfin, if_neg hd]
    apply magnitudeRelation_far hd hfin
    rw [eq_of_far hn hfin hpfin (lt_scale_of_not_distance (scale_mono hmag) hd)]

end

/-- What is computed from the result of an exact run runs exactly. -/
lemma RunsExactly.bind {α β : Type} {run : Option (List Call × α)} {x : α} {y : β}
    {f : List Call × α → Option (List Call × β)} (h : RunsExactly run x)
    (hf : ∀ calls, f (calls, x) = some (calls, y)) : RunsExactly (run >>= f) y := by
  obtain ⟨calls, hrun, hcalls⟩ := h
  refine ⟨calls, ?_, hcalls⟩
  rw [hrun, Option.bind_eq_bind, Option.bind_some, hf]

section
variable {ops : Nearest} {a b n : U64}

lemma addRelation_runsExactly (ha : IsFinite a) (hb : IsFinite b)
    (hn : RoundsNearest (value a + value b) n) (hfin : IsFinite n) :
    RunsExactly (addRelation a b n) (SoftFp.addRelation a b n) := by
  have hcomm : RoundsNearest (value b + value a) n := by
    rw [add_comm]
    exact hn
  simp only [addRelation, SoftFp.addRelation, magnitude_eq_some ha, magnitude_eq_some hb,
    Option.bind_eq_bind, Option.bind_some]
  by_cases hzero : (SoftFp.magnitude a).coefficient = 0 ∨ (SoftFp.magnitude b).coefficient = 0
  · simp only [if_pos hzero]
    exact RunsExactly.none _
  have ha0 : mag a ≠ 0 := fun h => hzero (Or.inl (coefficient_magnitude_eq_zero.mpr h))
  have hb0 : mag b ≠ 0 := fun h => hzero (Or.inr (coefficient_magnitude_eq_zero.mpr h))
  simp only [if_neg hzero, and_signMask_bne]
  by_cases hs : a.msb = b.msb
  · simp only [if_pos hs]
    by_cases hscale : (SoftFp.magnitude a).scale ≥ (SoftFp.magnitude b).scale
    · simp only [if_pos hscale]
      rw [sameSign_relation hb0 ha hs hscale hn hfin]
      exact (sameSign_runsExactly hb0 ha hs hscale hn hfin).bind fun _ => rfl
    · simp only [if_neg hscale]
      have hscale' := (not_le.mp hscale).le
      rw [sameSign_relation ha0 hb hs.symm hscale' hcomm hfin]
      exact (sameSign_runsExactly ha0 hb hs.symm hscale' hcomm hfin).bind fun _ => rfl
  · simp only [if_neg hs, toNat_and_absMask]
    -- the source swaps the operands so that the first one is the larger
    rcases lt_trichotomy (mag a) (mag b) with hlt | heq | hgt
    · rw [compare_lt_iff_lt.mpr hlt]
      simp only [reduceCtorEq, if_false]
      rw [oppositeSign_relation ha0 hb (Ne.symm hs) hlt.le hcomm hfin, ← Option.bind_eq_bind,
        guard_bind (scale_mono hlt.le)]
      exact (oppositeSign_runsExactly ha0 hb (Ne.symm hs) hlt.le hcomm hfin).bind fun _ => rfl
    · rw [compare_eq_iff_eq.mpr heq]
      exact RunsExactly.none _
    · rw [compare_gt_iff_gt.mpr hgt]
      simp only [if_true]
      rw [oppositeSign_relation hb0 ha hs hgt.le hn hfin, ← Option.bind_eq_bind,
        guard_bind (scale_mono hgt.le)]
      exact (oppositeSign_runsExactly hb0 ha hs hgt.le hn hfin).bind fun _ => rfl

/-- `add_inner` on finite operands. -/
lemma addInner_runsExactly (hops : ops.RoundsSums) (ha : IsFinite a) (hb : IsFinite b)
    (mode : RoundingMode) : RunsExactly (addInner ops a b mode) (SoftFp.addInner ops a b mode) := by
  have hn := rounds_iff.mpr (hops.add ha hb)
  simp only [addInner, SoftFp.addInner, isInfinite_eq_false ha, isInfinite_eq_false hb,
    Bool.or_self, Bool.false_eq_true, if_false]
  by_cases hfin : IsFinite (ops.add a b)
  · simp only [directedOverflow_of_isFinite hfin]
    refine (addRelation_runsExactly ha hb hn.1 hfin).bind fun calls => ?_
    split <;> rfl
  · obtain ⟨r, hr, -⟩ := directedOverflow_rounds hn (hn.isInf hfin) mode
    simp only [hr]
    exact RunsExactly.none r

/-! ## Products, quotients and roots -/

/-- `mul_inner` on finite operands. -/
lemma mulInner_runsExactly (hops : ops.RoundsProducts) (ha : IsFinite a) (hb : IsFinite b)
    (mode : RoundingMode) : RunsExactly (mulInner ops a b mode) (SoftFp.mulInner ops a b mode) := by
  have hn := rounds_iff.mpr (hops.mul ha hb)
  simp only [mulInner, SoftFp.mulInner, isInfinite_eq_false ha, isInfinite_eq_false hb,
    Bool.or_self, Bool.false_eq_true, if_false]
  by_cases hfin : IsFinite (ops.mul a b)
  · have hcomparable := comparable_mul hn.1 hfin
    simp only [directedOverflow_of_isFinite hfin, magnitude_eq_some ha, magnitude_eq_some hb,
      magnitude_eq_some hfin, Option.bind_eq_bind, Option.bind_some, multiplyMagnitudes_eq_some,
      compareNearbyScaled_eq_some hcomparable]
    exact RunsExactly.one (exact_of_comparable hcomparable) _
  · obtain ⟨r, hr, -⟩ := directedOverflow_rounds hn (hn.isInf hfin) mode
    simp only [hr]
    exact RunsExactly.none r

/-- `div_inner` on finite operands and a divisor different from zero. -/
lemma divInner_runsExactly (hops : ops.RoundsProducts) (ha : IsFinite a) (hb : IsFinite b)
    (hb0 : mag b ≠ 0) (mode : RoundingMode) :
    RunsExactly (divInner ops a b mode) (SoftFp.divInner ops a b mode) := by
  have hn := rounds_iff.mpr (hops.div ha hb hb0)
  unfold divInner
  rw [guard_bind (by rwa [ne_eq, and_absMask_eq_zero])]
  simp only [SoftFp.divInner, isInfinite_eq_false ha, isInfinite_eq_false hb,
    Bool.or_self, Bool.false_eq_true, if_false]
  by_cases hfin : IsFinite (ops.div a b)
  · have hcomparable := comparable_div hb0 hn.1 hfin
    simp only [directedOverflow_of_isFinite hfin, magnitude_eq_some ha, magnitude_eq_some hb,
      magnitude_eq_some hfin, Option.bind_eq_bind, Option.bind_some, multiplyMagnitudes_eq_some,
      compareNearbyScaled_eq_some hcomparable]
    exact RunsExactly.one (exact_of_comparable hcomparable) _
  · obtain ⟨r, hr, -⟩ := directedOverflow_rounds hn (hn.isInf hfin) mode
    simp only [hr]
    exact RunsExactly.none r

/-- `sqrt_inner` on a finite operand that is not negative. -/
lemma sqrtInner_runsExactly (hops : ops.RoundsProducts) (ha : IsFinite a)
    (hsign : a.msb = false ∨ mag a = 0) (mode : RoundingMode) :
    RunsExactly (sqrtInner ops a mode) (SoftFp.sqrtInner ops a mode) := by
  have hn := rounds_iff.mpr (hops.sqrt ha hsign)
  have hfin := isFinite_sqrt ha hn
  have hcomparable := comparable_sqrt (value_nonneg_of_radicand hsign) hn.1 hfin
  simp only [sqrtInner, SoftFp.sqrtInner, isInfinite_eq_false ha, Bool.false_eq_true, if_false,
    magnitude_eq_some ha, magnitude_eq_some hfin, Option.bind_eq_bind, Option.bind_some,
    multiplyMagnitudes_eq_some, compareNearbyScaled_eq_some hcomparable]
  exact RunsExactly.one (exact_of_comparable hcomparable) _

/-! ## The operations -/

/-- The operand of the larger magnitude. -/
def larger (a b : U64) : U64 := if mag b < mag a then a else b

/-- The operands differ from zero and their scales by more than the alignment bound. -/
def FarApart (a b : U64) : Prop :=
  (SoftFp.magnitude a).coefficient ≠ 0 ∧ (SoftFp.magnitude b).coefficient ≠ 0 ∧
    75 < |(SoftFp.magnitude a).scale - (SoftFp.magnitude b).scale|

instance (a b : U64) : Decidable (FarApart a b) := inferInstanceAs (Decidable (_ ∧ _ ∧ _))

/-- On operands far apart, `nearest::add` returns the larger one. -/
lemma add_eq_larger (hops : ops.RoundsSums) (ha : IsFinite a) (hb : IsFinite b)
    (hfin : IsFinite (ops.add a b)) (hfar : FarApart a b) : ops.add a b = larger a b := by
  have hn := (rounds_iff.mpr (hops.add ha hb)).1
  have hmono : ∀ {p r : U64}, (SoftFp.magnitude r).scale < (SoftFp.magnitude p).scale →
      mag r < mag p := by
    intro p r hlt
    by_contra hle
    exact absurd (scale_mono (not_lt.mp hle)) (not_le.mpr hlt)
  rcases lt_abs.mp hfar.2.2 with h | h
  · rw [larger, if_pos (hmono (by omega))]
    exact eq_of_far hn hfin ha (by omega)
  · rw [larger, if_neg (not_lt.mpr (hmono (by omega)).le)]
    rw [add_comm] at hn
    exact eq_of_far hn hfin hb (by omega)

/-- On finite operands in their domain the directed operations only compare aligned integers
that fit `u128`, so that every comparison is exact; and operands too far apart to be aligned
have the larger one as their nearest sum. -/
theorem inner_runsExactly (hsums : ops.RoundsSums) (hproducts : ops.RoundsProducts)
    (mode : RoundingMode) :
    (∀ a b, IsFinite a → IsFinite b →
      RunsExactly (addInner ops a b mode) (SoftFp.addInner ops a b mode)) ∧
    (∀ a b, IsFinite a → IsFinite b →
      RunsExactly (mulInner ops a b mode) (SoftFp.mulInner ops a b mode)) ∧
    (∀ a b, IsFinite a → IsFinite b → mag b ≠ 0 →
      RunsExactly (divInner ops a b mode) (SoftFp.divInner ops a b mode)) ∧
    (∀ a, IsFinite a → a.msb = false ∨ mag a = 0 →
      RunsExactly (sqrtInner ops a mode) (SoftFp.sqrtInner ops a mode)) ∧
    (∀ a b, IsFinite a → IsFinite b → IsFinite (ops.add a b) → FarApart a b →
      ops.add a b = larger a b) := by
  refine ⟨?_, ?_, ?_, ?_, ?_⟩
  · exact fun _ _ ha hb => addInner_runsExactly hsums ha hb mode
  · exact fun _ _ ha hb => mulInner_runsExactly hproducts ha hb mode
  · exact fun _ _ ha hb hb0 => divInner_runsExactly hproducts ha hb hb0 mode
  · exact fun _ ha hsign => sqrtInner_runsExactly hproducts ha hsign mode
  · exact fun _ _ ha hb hfin hfar => add_eq_larger hsums ha hb hfin hfar

end

/-- The sum of values of opposite signs does not overflow. -/
lemma isFinite_add_of_opposite {a b n : U64} {zs : Bool} (ha : IsFinite a) (hb : IsFinite b)
    (ha0 : 0 ≤ value a) (hb0 : value b ≤ 0)
    (hn : Rounds .nearestEven (value a + value b) zs n) : IsFinite n := by
  have hfa := isFinite_iff.mp ha
  have hfb := isFinite_iff.mp hb
  have hupper := hn.ordinal_le (z := ordinal a) (by omega) (by omega)
    (by rw [← value]; linarith)
  have hlower := hn.le_ordinal (z := ordinal b) (by omega) (by omega)
    (by rw [← value]; linarith)
  rw [isFinite_iff]
  omega

/-- Operands of opposite signs and near scales are aligned and compared once. -/
lemma exists_call_of_addInner {ops : Nearest} {a b out : U64} {mode : RoundingMode}
    {calls : List Call} (ha : IsFinite a) (hb : IsFinite b) (hfin : IsFinite (ops.add a b))
    (hnonzero : ¬((SoftFp.magnitude a).coefficient = 0 ∨ (SoftFp.magnitude b).coefficient = 0))
    (hsign : ¬(a &&& signMask != 0) = (b &&& signMask != 0))
    (horder : compare (a &&& absMask).toNat (b &&& absMask).toNat = .gt)
    (hnear : asU32 ((SoftFp.magnitude a).scale - (SoftFp.magnitude b).scale) ≤ maxAlignment)
    (h : addInner ops a b mode = some (calls, out)) : ∃ call, calls = [call] := by
  simp only [addInner, isInfinite_eq_false ha, isInfinite_eq_false hb, Bool.or_self,
    Bool.false_eq_true, if_false, directedOverflow_of_isFinite hfin, addRelation,
    magnitude_eq_some ha, magnitude_eq_some hb, Option.bind_eq_bind, Option.bind_some,
    if_neg hnonzero, if_neg hsign, horder, if_true, magnitudeRelation, if_pos hnear,
    Option.bind_eq_some_iff] at h
  obtain ⟨_, ⟨-, -, _, ⟨-, -, -, -, -, -, call, -, hrelation⟩, hresult⟩, hout⟩ := h
  obtain rfl := Option.some.inj hrelation
  obtain rfl := Option.some.inj hresult
  -- whatever the sign of a zero, the call is reported
  refine ⟨call, ?_⟩
  split at hout <;> exact (Prod.mk.inj (Option.some.inj hout)).1.symm

/-- A root is compared once. -/
lemma exists_call_of_sqrtInner {ops : Nearest} {a out : U64} {mode : RoundingMode}
    {calls : List Call} (ha : IsFinite a) (h : sqrtInner ops a mode = some (calls, out)) :
    ∃ call, calls = [call] := by
  simp only [sqrtInner, isInfinite_eq_false ha, Bool.false_eq_true, if_false,
    Option.bind_eq_bind, Option.bind_eq_some_iff] at h
  obtain ⟨-, -, -, -, -, -, -, -, call, -, hout⟩ := h
  exact ⟨call, (Prod.mk.inj (Option.some.inj hout)).1.symm⟩

/-- One and `-2 ^ -60` are aligned and compared once, as are two and the square of its root; the
smallest subnormal is too far from one. -/
theorem inner_runsExactly_aligned :
    ∃ sum root : Call,
      addInner roundingNearest 0x3ff0000000000000#64 0xbc30000000000000#64 .up
          = some ([sum],
            SoftFp.addInner roundingNearest 0x3ff0000000000000#64 0xbc30000000000000#64 .up) ∧
        sum.Exact ∧
      sqrtInner roundingNearest 0x4000000000000000#64 .up
          = some ([root], SoftFp.sqrtInner roundingNearest 0x4000000000000000#64 .up) ∧
        root.Exact ∧
      roundingNearest.add 0x3ff0000000000000#64 0x8000000000000001#64 =
        0x3ff0000000000000#64 := by
  obtain ⟨hadd, -, -, hsqrt, hfar⟩ := inner_runsExactly roundsSums_roundingNearest
    roundsProducts_roundingNearest .up
  have hopposite {b : U64} (hb : IsFinite b) (hsign : b.msb = true) :
      IsFinite (roundingNearest.add 0x3ff0000000000000#64 b) :=
    isFinite_add_of_opposite (by decide) hb (value_nonneg_of_msb (by decide))
      (value_nonpos_of_msb hsign) (rounds_iff.mpr (roundsSums_roundingNearest.add (by decide) hb))
  obtain ⟨calls, hsum, hcalls⟩ :=
    hadd 0x3ff0000000000000#64 0xbc30000000000000#64 (by decide) (by decide)
  obtain ⟨calls', hroot, hcalls'⟩ := hsqrt 0x4000000000000000#64 (by decide) (by decide)
  obtain ⟨sum, rfl⟩ := exists_call_of_addInner (by decide) (by decide)
    (hopposite (by decide) (by decide)) (by decide) (by decide) (by decide) (by decide) hsum
  obtain ⟨root, rfl⟩ := exists_call_of_sqrtInner (by decide) hroot
  exact ⟨sum, root, hsum, hcalls sum List.mem_cons_self, hroot, hcalls' root List.mem_cons_self,
    hfar _ _ (by decide) (by decide) (hopposite (by decide) (by decide)) (by decide)⟩

end RandomXSp1.SoftFp.Checked
