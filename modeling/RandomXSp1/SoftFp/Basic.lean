import RandomXSp1.Common

/-!
# The software floating point of `randomx-softfp`

Directed binary64 arithmetic on bit patterns. The nearest-even helpers of the target are the
parameter `Nearest`; each directed operation takes the nearest result, compares it with the
exact one in integers and moves it by at most one pattern. Coefficients are `u128` values,
written as naturals with the wrap-around of the type, and scales are `i32` values, far from
their bounds.
-/

namespace RandomXSp1.SoftFp

/-- The masks of the sign, of what is below it, and of the two fields. -/
def signMask : U64 := 1 <<< 63
def absMask : U64 := signMask - 1
def expMask : U64 := 0x7ff0000000000000#64
def fracMask : U64 := 0x000fffffffffffff#64
def implicitBit : U64 := 1 <<< 52

/-- RandomX `fprc` values. -/
inductive RoundingMode where
  | nearest
  | down
  | up
  | towardZero
  deriving DecidableEq, Repr

/-- The helpers of the module `nearest`, compiled from the target's own binary64 operations. -/
structure Nearest where
  add : U64 → U64 → U64
  sub : U64 → U64 → U64
  mul : U64 → U64 → U64
  div : U64 → U64 → U64
  sqrt : U64 → U64

/-! ## Magnitudes -/

/-- `coefficient * 2 ^ scale`. -/
structure Magnitude where
  coefficient : ℕ
  scale : ℤ

/-- `value << shift` on `u128`: the amount counts modulo the width and high bits are lost. -/
def shl128 (value shift : ℕ) : ℕ := value * 2 ^ (shift % 128) % 2 ^ 128

/-- `value as u32` of an `i32`. -/
def asU32 (value : ℤ) : ℕ := (value % 2 ^ 32).toNat

/-- A subnormal number has no implicit bit, and the scale of the smallest normal ones. -/
def magnitude (bits : U64) : Magnitude :=
  let exponent := ((bits &&& expMask) >>> 52).toNat
  let fraction := bits &&& fracMask
  if exponent = 0 then
    { coefficient := fraction.toNat, scale := -1074 }
  else
    { coefficient := (fraction ||| implicitBit).toNat, scale := exponent - 1023 - 52 }

/-- Compares two values already known to be within one rounding binade. -/
def compareNearbyScaled (a b : Magnitude) : Ordering :=
  if a.coefficient = 0 ∨ b.coefficient = 0 then
    compare a.coefficient b.coefficient
  else
    match compare a.scale b.scale with
    | .eq => compare a.coefficient b.coefficient
    | .gt => compare (shl128 a.coefficient (asU32 (a.scale - b.scale))) b.coefficient
    | .lt => compare a.coefficient (shl128 b.coefficient (asU32 (b.scale - a.scale)))

/-- `u128` holds the product of two coefficients. -/
def multiplyMagnitudes (a b : Magnitude) : Magnitude :=
  { coefficient := a.coefficient * b.coefficient % 2 ^ 128, scale := a.scale + b.scale }

/-- An order of magnitudes, as an order of the numbers. -/
def reverseIfNegative (ordering : Ordering) (negative : Bool) : Ordering :=
  if negative then ordering.swap else ordering

/-! ## Neighbours and directions -/

/-- The neighbours of a number, by way of the bit pattern. -/
def nextUp (bits : U64) : U64 :=
  if bits &&& absMask = 0 then 1
  else if bits &&& signMask = 0 then bits + 1 else bits - 1

def nextDown (bits : U64) : U64 :=
  if bits &&& absMask = 0 then signMask ||| 1
  else if bits &&& signMask = 0 then bits - 1 else bits + 1

/-- `relation` compares the exact result to `nearest`. -/
def applyMode (nearest : U64) (relation : Ordering) (exactNegative : Bool)
    (mode : RoundingMode) : U64 :=
  match mode with
  | .nearest => nearest
  | .down => if relation = .lt then nextDown nearest else nearest
  | .up => if relation = .gt then nextUp nearest else nearest
  | .towardZero =>
    if exactNegative = true ∧ relation = .gt then nextUp nearest
    else if exactNegative = false ∧ relation = .lt then nextDown nearest
    else nearest

/-- Adjusts a nearest-even infinity produced by finite-input overflow. -/
def directedOverflow (nearest : U64) (mode : RoundingMode) : Option U64 :=
  if nearest &&& absMask ≠ expMask then none
  else
    let negative : Bool := nearest &&& signMask != 0
    let relation : Ordering := if negative then .gt else .lt
    some (applyMode nearest relation negative mode)

def isInfinite (value : U64) : Bool := value &&& absMask == expMask

/-! ## Operations -/

/-- The distance up to which the operands of an addition are aligned exactly. -/
def maxAlignment : ℕ := 75

/-- The pair `(relation, negative)` of `add_inner`, for finite operands and a finite nearest
result: how the exact sum compares to it, and its sign. -/
def addRelation (a b nearest : U64) : Ordering × Bool :=
  let aMagnitude := magnitude a
  let bMagnitude := magnitude b
  let aNegative : Bool := a &&& signMask != 0
  let bNegative : Bool := b &&& signMask != 0
  if aMagnitude.coefficient = 0 ∨ bMagnitude.coefficient = 0 then
    (.eq, nearest &&& signMask != 0)
  else if aNegative = bNegative then
    let (big, small) :=
      if aMagnitude.scale ≥ bMagnitude.scale then (aMagnitude, bMagnitude)
      else (bMagnitude, aMagnitude)
    let distance := asU32 (big.scale - small.scale)
    let magnitudeRelation :=
      if distance ≤ maxAlignment then
        let exact : Magnitude :=
          { coefficient := (shl128 big.coefficient distance + small.coefficient) % 2 ^ 128
            scale := small.scale }
        compareNearbyScaled exact (magnitude nearest)
      else .gt
    (reverseIfNegative magnitudeRelation aNegative, aNegative)
  else
    match compare (a &&& absMask).toNat (b &&& absMask).toNat with
    | .eq => (.eq, false)
    | magnitudeOrder =>
      let (big, small, negative) :=
        if magnitudeOrder = .gt then (aMagnitude, bMagnitude, aNegative)
        else (bMagnitude, aMagnitude, bNegative)
      let distance := asU32 (big.scale - small.scale)
      let magnitudeRelation :=
        if distance ≤ maxAlignment then
          let exact : Magnitude :=
            { coefficient :=
                (shl128 big.coefficient distance + (2 ^ 128 - small.coefficient)) % 2 ^ 128
              scale := small.scale }
          compareNearbyScaled exact (magnitude nearest)
        else .lt
      (reverseIfNegative magnitudeRelation negative, negative)

section
variable (nearestOps : Nearest)

/-- The sum to nearest, corrected by the exact comparison with it. -/
def addInner (a b : U64) (mode : RoundingMode) : U64 :=
  let nearest := nearestOps.add a b
  if isInfinite a || isInfinite b then nearest
  else
    match directedOverflow nearest mode with
    | some overflow => overflow
    | none =>
      let (relation, negative) := addRelation a b nearest
      -- an exact cancellation has the sign of roundTowardNegative
      if nearest &&& absMask = 0 ∧ relation = .eq ∧ (a ^^^ b) &&& signMask ≠ 0 ∧ mode = .down then
        signMask
      else applyMode nearest relation negative mode

def add (a b : U64) (mode : RoundingMode) : U64 :=
  if mode = .nearest then nearestOps.add a b else addInner nearestOps a b mode

def sub (a b : U64) (mode : RoundingMode) : U64 :=
  if mode = .nearest then nearestOps.sub a b else addInner nearestOps a (b ^^^ signMask) mode

/-- The product to nearest, corrected in the same way. -/
def mulInner (a b : U64) (mode : RoundingMode) : U64 :=
  let nearest := nearestOps.mul a b
  if isInfinite a || isInfinite b then nearest
  else
    match directedOverflow nearest mode with
    | some overflow => overflow
    | none =>
      let negative : Bool := (a ^^^ b) &&& signMask != 0
      let exact := multiplyMagnitudes (magnitude a) (magnitude b)
      let relation := reverseIfNegative (compareNearbyScaled exact (magnitude nearest)) negative
      applyMode nearest relation negative mode

def mul (a b : U64) (mode : RoundingMode) : U64 :=
  if mode = .nearest then nearestOps.mul a b else mulInner nearestOps a b mode

/-- The quotient is compared by way of its product with the divisor. -/
def divInner (a b : U64) (mode : RoundingMode) : U64 :=
  let nearest := nearestOps.div a b
  if isInfinite a || isInfinite b then nearest
  else
    match directedOverflow nearest mode with
    | some overflow => overflow
    | none =>
      let negative : Bool := (a ^^^ b) &&& signMask != 0
      let rhs := multiplyMagnitudes (magnitude nearest) (magnitude b)
      let relation := reverseIfNegative (compareNearbyScaled (magnitude a) rhs) negative
      applyMode nearest relation negative mode

def div (a b : U64) (mode : RoundingMode) : U64 :=
  if mode = .nearest then nearestOps.div a b else divInner nearestOps a b mode

/-- The root is compared by way of its square. -/
def sqrtInner (a : U64) (mode : RoundingMode) : U64 :=
  let nearest := nearestOps.sqrt a
  if isInfinite a then nearest
  else
    let squared := multiplyMagnitudes (magnitude nearest) (magnitude nearest)
    let relation := compareNearbyScaled (magnitude a) squared
    applyMode nearest relation false mode

def sqrt (a : U64) (mode : RoundingMode) : U64 :=
  if mode = .nearest then nearestOps.sqrt a else sqrtInner nearestOps a mode

/-! ## Two lanes -/

/-- The common shape of the two-lane entry points: the nearest helper in mode `nearest`, the
directed operation otherwise, lane by lane. -/
def lanewise2 (near : U64 → U64 → U64) (inner : U64 → U64 → RoundingMode → U64)
    (a b : U64 × U64) (mode : RoundingMode) : U64 × U64 :=
  if mode = .nearest then (near a.1 b.1, near a.2 b.2)
  else (inner a.1 b.1 mode, inner a.2 b.2 mode)

/-- The two-lane entry points, on arrays of the low and the high lane. -/
def add2 := lanewise2 nearestOps.add (addInner nearestOps)

def sub2 := lanewise2 nearestOps.sub fun a b => addInner nearestOps a (b ^^^ signMask)

def mul2 := lanewise2 nearestOps.mul (mulInner nearestOps)

def div2 := lanewise2 nearestOps.div (divInner nearestOps)

def sqrt2 (a : U64 × U64) (mode : RoundingMode) : U64 × U64 :=
  if mode = .nearest then (nearestOps.sqrt a.1, nearestOps.sqrt a.2)
  else (sqrtInner nearestOps a.1 mode, sqrtInner nearestOps a.2 mode)

end

end RandomXSp1.SoftFp
