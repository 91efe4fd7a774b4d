import RandomXSp1.Ieee.Grid

/-!
# The binary64 interchange format

A 64-bit pattern is a sign bit and a magnitude, the low 63 bits. Finite magnitudes enumerate
the nonnegative values of the format in increasing order (`gridVal`), the magnitude
`infMag` is the infinity and everything above it a NaN. The `ordinal` of a pattern is its
signed magnitude; on patterns that are not NaNs it carries the order of the extended reals,
with both zeros at `0`.
-/

namespace RandomXSp1.Ieee

/-- A binary64 bit pattern. -/
abbrev Bits := BitVec 64

/-- The magnitude of infinity: exponent field `0x7ff`, fraction zero. -/
def infMag : ℕ := 0x7ff0000000000000

/-- The magnitude of the smallest normal number. -/
def minNormalMag : ℕ := 0x0010000000000000

/-- The low 63 bits of a pattern: exponent field and fraction. -/
def mag (b : Bits) : ℕ := b.toNat % 2 ^ 63

/-- The pattern with the given sign and magnitude. -/
def pack (neg : Bool) (k : ℕ) : Bits := BitVec.ofNat 64 (k + if neg then 2 ^ 63 else 0)

/-- The pattern with the sign bit flipped. -/
def negate (b : Bits) : Bits := b ^^^ 0x8000000000000000#64

/-- Zeros, subnormal and normal patterns. -/
def IsFinite (b : Bits) : Prop := mag b < infMag

/-- The two infinities. -/
def IsInf (b : Bits) : Prop := mag b = infMag

/-- Whatever lies beyond the infinities. -/
def IsNaN (b : Bits) : Prop := infMag < mag b

/-- A finite pattern whose exponent field is not zero. -/
def IsNormal (b : Bits) : Prop := minNormalMag ≤ mag b ∧ mag b < infMag

/-- The two zeros. -/
def IsZero (b : Bits) : Prop := mag b = 0

instance : DecidablePred IsFinite := fun b => inferInstanceAs (Decidable (mag b < infMag))
instance : DecidablePred IsInf := fun b => inferInstanceAs (Decidable (mag b = infMag))
instance : DecidablePred IsNaN := fun b => inferInstanceAs (Decidable (infMag < mag b))
instance : DecidablePred IsZero := fun b => inferInstanceAs (Decidable (mag b = 0))
instance : DecidablePred IsNormal :=
  fun b => inferInstanceAs (Decidable (minNormalMag ≤ mag b ∧ mag b < infMag))

/-- The signed magnitude of a pattern. -/
def ordinal (b : Bits) : ℤ := if b.msb then -(mag b : ℤ) else mag b

/-- The pattern of a signed magnitude, with the zero of sign `zs` at `0`. -/
def ofOrdinal (zs : Bool) (z : ℤ) : Bits :=
  pack (if z = 0 then zs else decide (z < 0)) z.natAbs

/-- The binary64 grid over all integers: 52 fraction bits, smallest scale `2^-1074`. -/
noncomputable def grid (z : ℤ) : ℝ := signedGrid 52 (-1074) z

/-- The real number a finite pattern denotes. -/
noncomputable def value (b : Bits) : ℝ := grid (ordinal b)

/-- The extended real a pattern that is not a NaN denotes. -/
noncomputable def toEReal (b : Bits) : EReal :=
  if IsInf b then (if b.msb then ⊥ else ⊤) else (value b : EReal)

/-! ## Signs and magnitudes -/

lemma mag_lt (b : Bits) : mag b < 2 ^ 63 := Nat.mod_lt _ (by norm_num)

/-- A pattern is its sign bit and its magnitude. -/
lemma toNat_eq (b : Bits) : b.toNat = mag b + if b.msb then 2 ^ 63 else 0 := by
  have hlt := b.isLt
  rw [mag, BitVec.msb_eq_decide]
  by_cases h : 2 ^ 63 ≤ b.toNat
  · simp only [h, decide_true, if_true]
    omega
  · simp only [h, decide_false, Bool.false_eq_true, if_false]
    omega

/-- Packing puts the sign bit above the magnitude. -/
lemma toNat_pack {neg : Bool} {k : ℕ} (hk : k < 2 ^ 63) :
    (pack neg k).toNat = k + if neg then 2 ^ 63 else 0 := by
  rw [pack, BitVec.toNat_ofNat, Nat.mod_eq_of_lt]
  split <;> omega

/-- What was packed is read back. -/
lemma msb_pack {neg : Bool} {k : ℕ} (hk : k < 2 ^ 63) : (pack neg k).msb = neg := by
  rw [BitVec.msb_eq_decide, toNat_pack hk]
  cases neg
  · simp only [Bool.false_eq_true, if_false, decide_eq_false_iff_not]
    omega
  · simp

lemma mag_pack {neg : Bool} {k : ℕ} (hk : k < 2 ^ 63) : mag (pack neg k) = k := by
  rw [mag, toNat_pack hk]
  split <;> omega

@[simp] lemma pack_msb_mag (b : Bits) : pack b.msb (mag b) = b := by
  apply BitVec.eq_of_toNat_eq
  rw [toNat_pack (mag_lt b), toNat_eq b]

/-- Sign and magnitude determine the pattern. -/
lemma eq_of_msb_mag {b c : Bits} (hs : b.msb = c.msb) (hm : mag b = mag c) : b = c := by
  rw [← pack_msb_mag b, ← pack_msb_mag c, hs, hm]

@[simp] lemma msb_negate (b : Bits) : (negate b).msb = !b.msb := by
  have h : (0x8000000000000000#64).msb = true := by decide
  rw [negate, BitVec.msb_xor, h, Bool.xor_true]

@[simp] lemma mag_negate (b : Bits) : mag (negate b) = mag b := by
  have h : (negate b).setWidth 63 = b.setWidth 63 := by
    rw [negate, BitVec.setWidth_xor]
    simp
  simpa [mag] using congrArg BitVec.toNat h

@[simp] lemma negate_negate (b : Bits) : negate (negate b) = b := by
  rw [negate, negate, BitVec.xor_assoc, BitVec.xor_self, BitVec.xor_zero]

/-! ## Ordinals -/

/-- Positive patterns are numbered by their magnitudes, negative ones by the negated magnitudes. -/
lemma ordinal_of_pos {b : Bits} (h : b.msb = false) : ordinal b = mag b := by
  simp [ordinal, h]

lemma ordinal_of_neg {b : Bits} (h : b.msb = true) : ordinal b = -mag b := by
  simp [ordinal, h]

@[simp] lemma natAbs_ordinal (b : Bits) : (ordinal b).natAbs = mag b := by
  rw [ordinal]
  split <;> simp

@[simp] lemma ordinal_negate (b : Bits) : ordinal (negate b) = -ordinal b := by
  simp only [ordinal, msb_negate, mag_negate]
  cases b.msb <;> simp

/-- Every number with a magnitude of 63 bits is the ordinal of a pattern. -/
lemma ordinal_ofOrdinal {zs : Bool} {z : ℤ} (hz : z.natAbs < 2 ^ 63) :
    ordinal (ofOrdinal zs z) = z := by
  rw [ordinal, ofOrdinal, msb_pack hz, mag_pack hz]
  rcases lt_trichotomy z 0 with h | rfl | h
  · simp only [h.ne, if_false, h, decide_true, if_true]
    omega
  · simp
  · simp only [h.ne', if_false, not_lt.mpr h.le, decide_false, Bool.false_eq_true]
    omega

/-- The chosen sign is that of the number, or for zero the given one. -/
lemma msb_ofOrdinal {zs : Bool} {z : ℤ} (hz : z.natAbs < 2 ^ 63) :
    (ofOrdinal zs z).msb = if z = 0 then zs else decide (z < 0) :=
  msb_pack hz

/-- A pattern is determined by its ordinal and its sign. -/
lemma eq_of_ordinal_msb {b c : Bits} (ho : ordinal b = ordinal c) (hs : b.msb = c.msb) :
    b = c := by
  refine eq_of_msb_mag hs ?_
  rw [← natAbs_ordinal b, ← natAbs_ordinal c, ho]

/-- In terms of ordinals the finite patterns are an interval. -/
lemma isFinite_iff {b : Bits} : IsFinite b ↔ -infMag < ordinal b ∧ ordinal b < infMag := by
  have h := natAbs_ordinal b
  rw [IsFinite, ← h]
  omega

/-- So are the finite and infinite patterns together. -/
lemma not_isNaN_iff {b : Bits} : ¬IsNaN b ↔ -infMag ≤ ordinal b ∧ ordinal b ≤ infMag := by
  have h := natAbs_ordinal b
  rw [IsNaN, ← h]
  omega

lemma IsFinite.not_isNaN {b : Bits} (h : IsFinite b) : ¬IsNaN b := by
  unfold IsFinite IsNaN at *
  omega

lemma IsFinite.not_isInf {b : Bits} (h : IsFinite b) : ¬IsInf b := by
  unfold IsFinite IsInf at *
  omega

lemma IsInf.not_isNaN {b : Bits} (h : IsInf b) : ¬IsNaN b := by
  unfold IsInf IsNaN at *
  omega

lemma IsInf.not_isZero {b : Bits} (h : IsInf b) : ¬IsZero b := by
  unfold IsInf IsZero infMag at *
  omega

lemma IsNormal.isFinite {b : Bits} (h : IsNormal b) : IsFinite b := h.2

/-! ## Values -/

/-- The grid enumerates its values in increasing order. -/
lemma grid_strictMono : StrictMono grid := signedGrid_strictMono

@[simp] lemma grid_zero : grid 0 = 0 := signedGrid_zero

@[simp] lemma grid_neg (z : ℤ) : grid (-z) = -grid z := signedGrid_neg z

@[simp] lemma grid_natCast (k : ℕ) : grid k = gridVal 52 (-1074) k := signedGrid_natCast k

@[simp] lemma value_negate (b : Bits) : value (negate b) = -value b := by
  simp [value]

/-- The magnitude determines the absolute value. -/
lemma abs_value (b : Bits) : |value b| = gridVal 52 (-1074) (mag b) := by
  rw [value, grid, abs_signedGrid, natAbs_ordinal]

/-- The value of a pattern without the sign bit. -/
lemma value_of_pos {b : Bits} (h : b.msb = false) : value b = gridVal 52 (-1074) (mag b) := by
  rw [value, ordinal_of_pos h, grid_natCast]

lemma value_of_neg {b : Bits} (h : b.msb = true) :
    value b = -gridVal 52 (-1074) (mag b) := by
  rw [value, ordinal_of_neg h, grid_neg, grid_natCast]

/-- Only the two zeros have the value zero. -/
lemma value_eq_zero_iff {b : Bits} : value b = 0 ↔ mag b = 0 := by
  rw [← natAbs_ordinal b, value, Int.natAbs_eq_zero]
  constructor
  · intro h
    exact grid_strictMono.injective (h.trans grid_zero.symm)
  · intro h
    rw [h, grid_zero]

/-- Values are ordered as ordinals are, which is why integers can be compared instead. -/
lemma value_le_iff {b c : Bits} : value b ≤ value c ↔ ordinal b ≤ ordinal c :=
  grid_strictMono.le_iff_le

/-- Patterns of the same value are the same up to the sign of a zero. -/
lemma value_eq_iff {b c : Bits} : value b = value c ↔ ordinal b = ordinal c :=
  grid_strictMono.injective.eq_iff

/-- The sign of a nonzero value is the sign bit. -/
lemma value_neg_iff {b : Bits} (h : mag b ≠ 0) : value b < 0 ↔ b.msb = true := by
  cases hs : b.msb
  · rw [value_of_pos hs]
    simpa using gridVal_nonneg _
  · rw [value_of_neg hs]
    simpa using gridVal_pos h

/-- The first value beyond the finite ones. -/
lemma grid_infMag : grid infMag = 2 ^ (1024 : ℤ) := by
  have h : infMag = (2046 + 1) * 2 ^ 52 := by norm_num [infMag]
  rw [grid_natCast, h, gridVal_binade]
  norm_num

/-! ## The order of the extended reals -/

/-- Finite patterns have their real value, infinities one of the ends. -/
lemma toEReal_of_isFinite {b : Bits} (h : IsFinite b) : toEReal b = (value b : EReal) :=
  if_neg h.not_isInf

lemma toEReal_of_isInf {b : Bits} (h : IsInf b) : toEReal b = if b.msb then ⊥ else ⊤ :=
  if_pos h

/-- A pattern lies at or below a real exactly when it is minus infinity or a finite value
that does. -/
lemma toEReal_le_coe_iff {b : Bits} (hb : ¬IsNaN b) {x : ℝ} :
    toEReal b ≤ x ↔ ordinal b = -infMag ∨ (ordinal b < infMag ∧ value b ≤ x) := by
  have hinf : (0 : ℤ) < infMag := by norm_num [infMag]
  have hmag := natAbs_ordinal b
  rcases lt_or_eq_of_le (not_lt.mp hb) with h | h
  · have hfin := isFinite_iff.mp h
    rw [toEReal_of_isFinite h, EReal.coe_le_coe_iff]
    constructor
    · exact fun hle => Or.inr ⟨hfin.2, hle⟩
    · rintro (hbot | ⟨-, hle⟩)
      · omega
      · exact hle
  · rw [toEReal_of_isInf h]
    cases hs : b.msb
    · have ho : ordinal b = infMag := by rw [ordinal_of_pos hs, h]
      simp only [Bool.false_eq_true, if_false, top_le_iff, EReal.coe_ne_top, false_iff]
      omega
    · have ho : ordinal b = -infMag := by rw [ordinal_of_neg hs, h]
      simp [ho]

/-- Negation flips the sign of every pattern that is a number. -/
@[simp] lemma toEReal_negate {b : Bits} : toEReal (negate b) = -toEReal b := by
  have hinf : IsInf (negate b) ↔ IsInf b := by simp [IsInf]
  unfold toEReal
  by_cases h : IsInf b
  · rw [if_pos h, if_pos (hinf.mpr h), msb_negate]
    cases b.msb <;> simp
  · rw [if_neg h, if_neg (mt hinf.mp h), value_negate, EReal.coe_neg]

/-- On patterns that are not NaNs the order of the extended reals is that of the ordinals. -/
theorem toEReal_le_iff {b c : Bits} (hb : ¬IsNaN b) (hc : ¬IsNaN c) :
    toEReal b ≤ toEReal c ↔ ordinal b ≤ ordinal c := by
  have hob := not_isNaN_iff.mp hb
  rcases lt_or_eq_of_le (not_lt.mp hc) with h | h
  · have hfin := isFinite_iff.mp h
    rw [toEReal_of_isFinite h, toEReal_le_coe_iff hb, value_le_iff]
    omega
  · rw [toEReal_of_isInf h]
    cases hs : c.msb
    · -- above everything
      have ho : ordinal c = infMag := by rw [ordinal_of_pos hs, h]
      simp only [Bool.false_eq_true, if_false, le_top, true_iff]
      omega
    · -- below everything, so only negative infinity is at most that
      have ho : ordinal c = -infMag := by rw [ordinal_of_neg hs, h]
      simp only [if_true, le_bot_iff]
      constructor
      · intro hbot
        rcases lt_or_eq_of_le (not_lt.mp hb) with h' | h'
        · rw [toEReal_of_isFinite h'] at hbot
          exact absurd hbot (EReal.coe_ne_bot _)
        · rw [toEReal_of_isInf h'] at hbot
          cases hs' : b.msb
          · simp [hs'] at hbot
          · rw [ordinal_of_neg hs', h', ho]
      · intro hle
        have hmag : mag b = infMag := by
          rw [← natAbs_ordinal b]
          omega
        have hs' : b.msb = true := by
          by_contra hneg
          rw [ordinal_of_pos (by simpa using hneg)] at hle
          have : (0 : ℤ) < infMag := by norm_num [infMag]
          omega
        rw [toEReal_of_isInf hmag, hs']
        rfl

end RandomXSp1.Ieee
