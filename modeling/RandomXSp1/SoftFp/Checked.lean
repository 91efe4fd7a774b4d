import RandomXSp1.Checked
import RandomXSp1.SoftFp.Basic

/-!
# The checked arithmetic of `randomx-softfp`

The directed operations with every `u128` operation checked: `none` is an overflow or a failed
assertion about magnitudes, which stop a debug build, or a left shift that loses a bit, which
no build notices. Each operation also returns its calls of `compare_nearby_scaled`. The
assertions on the mode and on an infinite result are left out, for they guard no arithmetic.
-/

namespace RandomXSp1.SoftFp.Checked

/-- A call of `compare_nearby_scaled` and the ordering it returned. -/
structure Call where
  a : Magnitude
  b : Magnitude
  ordering : Ordering

/-- `value << shift` on `u128`, by an amount below the width and without losing a bit. -/
def shl128 (value shift : ℕ) : Option ℕ :=
  if shift < 128 ∧ value * 2 ^ shift < 2 ^ 128 then some (value * 2 ^ shift) else none

/-- The assertion excludes infinities and NaNs. -/
def magnitude (bits : U64) : Option Magnitude := do
  let exponent := ((bits &&& expMask) >>> 52).toNat
  -- RandomX excludes NaN and infinity
  guard (exponent ≠ 0x7ff)
  pure (SoftFp.magnitude bits)

/-- Each arm returns the call with its result. -/
def compareNearbyScaled (a b : Magnitude) : Option Call := do
  if a.coefficient = 0 ∨ b.coefficient = 0 then
    pure ⟨a, b, compare a.coefficient b.coefficient⟩
  else
    match compare a.scale b.scale with
    | .eq => pure ⟨a, b, compare a.coefficient b.coefficient⟩
    | .gt =>
      let shifted ← shl128 a.coefficient (asU32 (a.scale - b.scale))
      pure ⟨a, b, compare shifted b.coefficient⟩
    | .lt =>
      let shifted ← shl128 b.coefficient (asU32 (b.scale - a.scale))
      pure ⟨a, b, compare a.coefficient shifted⟩

/-- The product is checked against the width. -/
def multiplyMagnitudes (a b : Magnitude) : Option Magnitude := do
  let coefficient ← checkedMul 128 a.coefficient b.coefficient
  pure { coefficient, scale := a.scale + b.scale }

/-- The relation of the magnitudes in `add_inner`: `combine` adds or subtracts the aligned
coefficients, and `far` is the answer beyond the alignment bound. -/
def magnitudeRelation (combine : ℕ → ℕ → Option ℕ) (far : Ordering) (big small : Magnitude)
    (nearest : U64) : Option (List Call × Ordering) := do
  let distance := asU32 (big.scale - small.scale)
  if distance ≤ maxAlignment then
    let shifted ← shl128 big.coefficient distance
    let coefficient ← combine shifted small.coefficient
    let call ← compareNearbyScaled { coefficient, scale := small.scale } (← magnitude nearest)
    pure ([call], call.ordering)
  else
    let rounded ← magnitude nearest
    guard (rounded.coefficient = big.coefficient)
    guard (rounded.scale = big.scale)
    pure ([], far)

/-- The order of the exact sum and the rounded one, with its calls, and the sign that decides how to
read it. -/
def addRelation (a b nearest : U64) : Option (List Call × Ordering × Bool) := do
  let aMagnitude ← magnitude a
  let bMagnitude ← magnitude b
  let aNegative : Bool := a &&& signMask != 0
  let bNegative : Bool := b &&& signMask != 0
  if aMagnitude.coefficient = 0 ∨ bMagnitude.coefficient = 0 then
    pure ([], .eq, nearest &&& signMask != 0)
  else if aNegative = bNegative then
    let (big, small) :=
      if aMagnitude.scale ≥ bMagnitude.scale then (aMagnitude, bMagnitude)
      else (bMagnitude, aMagnitude)
    let (calls, relation) ← magnitudeRelation (checkedAdd 128) .gt big small nearest
    pure (calls, reverseIfNegative relation aNegative, aNegative)
  else
    match compare (a &&& absMask).toNat (b &&& absMask).toNat with
    | .eq => pure ([], .eq, false)
    | magnitudeOrder =>
      let (big, small, negative) :=
        if magnitudeOrder = .gt then (aMagnitude, bMagnitude, aNegative)
        else (bMagnitude, aMagnitude, bNegative)
      guard (big.scale ≥ small.scale)
      let (calls, relation) ← magnitudeRelation checkedSub .lt big small nearest
      pure (calls, reverseIfNegative relation negative, negative)

section
variable (nearestOps : Nearest)

def addInner (a b : U64) (mode : RoundingMode) : Option (List Call × U64) := do
  let nearest := nearestOps.add a b
  if isInfinite a || isInfinite b then pure ([], nearest)
  else
    match directedOverflow nearest mode with
    | some overflow => pure ([], overflow)
    | none =>
      let (calls, relation, negative) ← addRelation a b nearest
      if nearest &&& absMask = 0 ∧ relation = .eq ∧ (a ^^^ b) &&& signMask ≠ 0 ∧ mode = .down then
        pure (calls, signMask)
      else pure (calls, applyMode nearest relation negative mode)

def mulInner (a b : U64) (mode : RoundingMode) : Option (List Call × U64) := do
  let nearest := nearestOps.mul a b
  if isInfinite a || isInfinite b then pure ([], nearest)
  else
    match directedOverflow nearest mode with
    | some overflow => pure ([], overflow)
    | none =>
      let negative : Bool := (a ^^^ b) &&& signMask != 0
      let exact ← multiplyMagnitudes (← magnitude a) (← magnitude b)
      let call ← compareNearbyScaled exact (← magnitude nearest)
      let relation := reverseIfNegative call.ordering negative
      pure ([call], applyMode nearest relation negative mode)

/-- A divisor of zero fails the assertion. -/
def divInner (a b : U64) (mode : RoundingMode) : Option (List Call × U64) := do
  guard (b &&& absMask ≠ 0)
  let nearest := nearestOps.div a b
  if isInfinite a || isInfinite b then pure ([], nearest)
  else
    match directedOverflow nearest mode with
    | some overflow => pure ([], overflow)
    | none =>
      let negative : Bool := (a ^^^ b) &&& signMask != 0
      let rhs ← multiplyMagnitudes (← magnitude nearest) (← magnitude b)
      let call ← compareNearbyScaled (← magnitude a) rhs
      let relation := reverseIfNegative call.ordering negative
      pure ([call], applyMode nearest relation negative mode)

def sqrtInner (a : U64) (mode : RoundingMode) : Option (List Call × U64) := do
  let nearest := nearestOps.sqrt a
  if isInfinite a then pure ([], nearest)
  else
    let squared ← multiplyMagnitudes (← magnitude nearest) (← magnitude nearest)
    let call ← compareNearbyScaled (← magnitude a) squared
    pure ([call], applyMode nearest call.ordering false mode)

end

end RandomXSp1.SoftFp.Checked
