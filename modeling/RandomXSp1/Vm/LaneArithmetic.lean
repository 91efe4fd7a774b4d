import RandomXSp1.Ieee.Magnitudes
import RandomXSp1.SoftFp.CorrectRounding
import RandomXSp1.Vm.Optimized

/-!
# Correctly rounded lane arithmetic

What binary64 prescribes for a call in its rounding mode: finite operands give the rounding of the
exact result, and an infinite first operand of a product, quotient or root an infinity. The lane
arithmetic of the optimized interpreter is correctly rounded where its helpers are so to nearest.
-/

namespace RandomXSp1

open Ieee
open SoftFp (RoundingMode)

/-- Lane arithmetic that is correctly rounded binary64 in the mode of the call. -/
structure CorrectlyRounded (arith : LaneCall → U64) : Prop where
  add : ∀ {mode a b}, IsFinite a → IsFinite b →
    arith (.add mode a b) = round mode.toMode (value a + value b) (sumZeroSign mode.toMode a b)
  sub : ∀ {mode a b}, IsFinite a → IsFinite b →
    arith (.sub mode a b) =
      round mode.toMode (value a - value b) (sumZeroSign mode.toMode a (negate b))
  mul : ∀ {mode a b}, IsFinite a → IsFinite b →
    arith (.mul mode a b) = round mode.toMode (value a * value b) (a.msb ^^ b.msb)
  div : ∀ {mode a b}, IsFinite a → IsFinite b → ¬IsZero b →
    arith (.div mode a b) = round mode.toMode (value a / value b) (a.msb ^^ b.msb)
  sqrt : ∀ {mode a}, IsFinite a → a.msb = false ∨ IsZero a →
    arith (.sqrt mode a) = round mode.toMode √(value a) a.msb
  mul_inf : ∀ {mode a b}, IsInf a ∨ IsInf b → ¬IsNaN a → ¬IsNaN b → ¬IsZero a → ¬IsZero b →
    arith (.mul mode a b) = pack (a.msb ^^ b.msb) infMag
  div_inf : ∀ {mode a b}, IsInf a → IsFinite b →
    arith (.div mode a b) = pack (a.msb ^^ b.msb) infMag
  sqrt_inf : ∀ {mode a}, IsInf a → a.msb = false → arith (.sqrt mode a) = a

/-- Lane arithmetic that rounds by definition. -/
noncomputable def roundingArith : LaneCall → U64
  | .add mode a b => round mode.toMode (value a + value b) (sumZeroSign mode.toMode a b)
  | .sub mode a b => round mode.toMode (value a - value b) (sumZeroSign mode.toMode a (negate b))
  | .mul mode a b =>
    if IsInf a ∨ IsInf b then pack (a.msb ^^ b.msb) infMag
    else round mode.toMode (value a * value b) (a.msb ^^ b.msb)
  | .div mode a b =>
    if IsInf a then pack (a.msb ^^ b.msb) infMag
    else round mode.toMode (value a / value b) (a.msb ^^ b.msb)
  | .sqrt mode a => if IsInf a then a else round mode.toMode √(value a) a.msb

lemma correctlyRounded_roundingArith : CorrectlyRounded roundingArith where
  add _ _ := rfl
  sub _ _ := rfl
  mul ha hb := if_neg (not_or.mpr ⟨ha.not_isInf, hb.not_isInf⟩)
  div ha _ _ := if_neg ha.not_isInf
  sqrt ha _ := if_neg ha.not_isInf
  mul_inf hinf _ _ _ _ := if_pos hinf
  div_inf ha _ := if_pos ha
  sqrt_inf ha _ := if_pos ha

/-! ## The lane arithmetic of the optimized interpreter -/

namespace SoftFp

/-- `nearest::mul` returns an infinity for an infinite operand, `nearest::div` and
`nearest::sqrt` for an infinite first one. -/
structure Nearest.KeepsInfinities (ops : Nearest) : Prop where
  mul : ∀ {a b}, IsInf a ∨ IsInf b → ¬IsNaN a → ¬IsNaN b → ¬IsZero a → ¬IsZero b →
    ops.mul a b = pack (a.msb ^^ b.msb) infMag
  div : ∀ {a b}, IsInf a → IsFinite b → ops.div a b = pack (a.msb ^^ b.msb) infMag
  sqrt : ∀ {a}, IsInf a → a.msb = false → ops.sqrt a = a

/-- Helpers for the nearest mode that are binary64. -/
structure Nearest.IsBinary64 (ops : Nearest) : Prop where
  sums : ops.RoundsSums
  products : ops.RoundsProducts
  infinities : ops.KeepsInfinities

/-- The nearest operations of lane arithmetic. -/
def Nearest.ofArith (arith : LaneCall → U64) : Nearest where
  add a b := arith (.add .nearest a b)
  sub a b := arith (.sub .nearest a b)
  mul a b := arith (.mul .nearest a b)
  div a b := arith (.div .nearest a b)
  sqrt a := arith (.sqrt .nearest a)

lemma isBinary64_ofArith {arith : LaneCall → U64} (h : CorrectlyRounded arith) :
    (Nearest.ofArith arith).IsBinary64 where
  sums := ⟨h.add, h.sub⟩
  products := ⟨h.mul, h.div, h.sqrt⟩
  infinities := ⟨h.mul_inf, h.div_inf, h.sqrt_inf⟩

lemma isInfinite_eq_true {b : U64} (h : IsInf b) : isInfinite b = true := by
  rw [isInfinite, beq_iff_eq, and_absMask_eq_expMask]
  exact h

lemma mulInner_of_isInf (ops : Nearest) {a b : U64} (h : IsInf a ∨ IsInf b)
    (mode : RoundingMode) : mulInner ops a b mode = ops.mul a b := by
  have hinfinite : isInfinite a = true ∨ isInfinite b = true :=
    h.imp isInfinite_eq_true isInfinite_eq_true
  simp [mulInner, hinfinite]

section
variable (ops : Nearest) {a : U64} (ha : IsInf a) (b : U64) (mode : RoundingMode)
include ha

lemma divInner_of_isInf : divInner ops a b mode = ops.div a b := by
  simp [divInner, isInfinite_eq_true ha]

omit b in
lemma sqrtInner_of_isInf : sqrtInner ops a mode = ops.sqrt a := by
  simp [sqrtInner, isInfinite_eq_true ha]

end

end SoftFp

namespace Optimized

open SoftFp

/-- The directed operations correct what the helpers round to nearest, and hand on their
infinities. -/
theorem correctlyRounded_laneOp {native nearest : Nearest} (hnative : native.IsBinary64)
    (hnearest : nearest.IsBinary64) : CorrectlyRounded (laneOp native nearest) where
  add {mode a b} ha hb := by
    have hdirected := add_eq_of_roundsSums hnearest.sums ha hb mode
    cases mode with
    | nearest => exact hnative.sums.add ha hb
    | _ => exact hdirected
  sub {mode a b} ha hb := by
    have hdirected := sub_eq_of_roundsSums hnearest.sums ha hb mode
    cases mode with
    | nearest => exact hnative.sums.sub ha hb
    | _ => exact hdirected
  mul {mode a b} ha hb := by
    have hdirected := mul_eq_of_roundsProducts hnearest.products ha hb mode
    cases mode with
    | nearest => exact hnative.products.mul ha hb
    | _ => exact hdirected
  div {mode a b} ha hb hb0 := by
    have hdirected := div_eq_of_roundsProducts hnearest.products ha hb hb0 mode
    cases mode with
    | nearest => exact hnative.products.div ha hb hb0
    | _ => exact hdirected
  sqrt {mode a} ha hsign := by
    have hdirected := sqrt_eq_of_roundsProducts hnearest.products ha hsign mode
    cases mode with
    | nearest => exact hnative.products.sqrt ha hsign
    | _ => exact hdirected
  mul_inf {mode a b} hinf ha hb ha0 hb0 := by
    have hmul := hnearest.infinities.mul hinf ha hb ha0 hb0
    cases mode with
    | nearest => exact hnative.infinities.mul hinf ha hb ha0 hb0
    | _ => exact (mulInner_of_isInf nearest hinf _).trans hmul
  div_inf {mode a b} ha hb := by
    cases mode with
    | nearest => exact hnative.infinities.div ha hb
    | _ => exact (divInner_of_isInf nearest ha b _).trans (hnearest.infinities.div ha hb)
  sqrt_inf {mode a} ha hsign := by
    cases mode with
    | nearest => exact hnative.infinities.sqrt ha hsign
    | _ => exact (sqrtInner_of_isInf nearest ha _).trans (hnearest.infinities.sqrt ha hsign)

end Optimized

/-! ## Arithmetic that agrees on some calls -/

section
variable {ops ops' : LaneOps} {x y : M128d}

lemma both_congr {call : U64 → U64 → LaneCall}
    (hlow : ops (call x.low y.low) = ops' (call x.low y.low))
    (hhigh : ops (call x.high y.high) = ops' (call x.high y.high)) :
    ops.both call x y = ops'.both call x y := by
  unfold LaneOps.both
  rw [hlow, hhigh]

lemma bothSqrt_congr {mode : RoundingMode} (hlow : ops (.sqrt mode x.low) = ops' (.sqrt mode x.low))
    (hhigh : ops (.sqrt mode x.high) = ops' (.sqrt mode x.high)) :
    ops.bothSqrt mode x = ops'.bothSqrt mode x := by
  unfold LaneOps.bothSqrt
  rw [hlow, hhigh]

end

/-- Lane arithmetic that is defined on some calls only. -/
def restrict (arith : LaneCall → U64) (P : LaneCall → Prop) [DecidablePred P] : LaneOps :=
  fun call => if P call then some (arith call) else none

lemma restrict_of_pos {arith : LaneCall → U64} {P : LaneCall → Prop} [DecidablePred P]
    {call : LaneCall} (h : P call) : restrict arith P call = some (arith call) := if_pos h

end RandomXSp1
