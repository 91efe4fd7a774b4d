import Mathlib
import RandomXSp1.Loops

/-!
# The field of 256 elements

Bytes as polynomials over the field of two elements modulo `x⁸ + x⁴ + x³ + x + 1`: addition is
`^^^`. Multiplication by a fixed element distributes over it, so it passes through the sums of
four terms that the columns of a block cipher are mixed with.
-/

namespace RandomXSp1.Gf256

/-! ## Arithmetic -/

/-- The polynomial of the standard, `x^8 + x^4 + x^3 + x + 1`. -/
def modulus : BitVec 16 := 0x11b

/-- The product of two polynomials, before it is reduced. -/
def product (a b : BitVec 8) : BitVec 16 :=
  (List.range 8).foldl (fun acc i => acc ^^^ if a.getLsbD i then b.setWidth 16 <<< i else 0) 0

/-- Cancels the term of degree `i + 8`. -/
def cancel (x : BitVec 16) (i : ℕ) : BitVec 16 :=
  x ^^^ if x.getLsbD (i + 8) then modulus <<< i else 0

/-- The remainder of a polynomial of degree at most fourteen. -/
def reduce (x : BitVec 16) : BitVec 8 := ([6, 5, 4, 3, 2, 1, 0].foldl cancel x).setWidth 8

/-- A product of polynomials, reduced modulo the modulus. -/
def mul (a b : BitVec 8) : BitVec 8 := reduce (product a b)

/-- The multiplicative inverse, as the power with exponent 254; zero is mapped to itself. -/
def inverse (a : BitVec 8) : BitVec 8 :=
  let a2 := mul a a
  let a3 := mul a2 a
  let a6 := mul a3 a3
  let a12 := mul a6 a6
  let a15 := mul a12 a3
  let a30 := mul a15 a15
  let a60 := mul a30 a30
  let a120 := mul a60 a60
  let a126 := mul a120 a6
  let a127 := mul a126 a
  mul a127 a127

/-! ## Distributivity -/

lemma xor_xor_xor_comm {w : ℕ} (a b c d : BitVec w) : a ^^^ b ^^^ (c ^^^ d) = a ^^^ c ^^^ (b ^^^ d) := by
  rw [BitVec.xor_assoc, BitVec.xor_assoc, ← BitVec.xor_assoc b, BitVec.xor_comm b,
    BitVec.xor_assoc c]

/-- Products distribute over sums on the right. -/
lemma product_xor (a b c : BitVec 8) : product a (b ^^^ c) = product a b ^^^ product a c := by
  have hterm (i : ℕ) : (if a.getLsbD i then (b ^^^ c).setWidth 16 <<< i else 0)
      = (if a.getLsbD i then b.setWidth 16 <<< i else (0 : BitVec 16))
        ^^^ if a.getLsbD i then c.setWidth 16 <<< i else 0 := by
    split
    · rw [BitVec.setWidth_xor, BitVec.shiftLeft_xor_distrib]
    · rfl
  have hfold (l : List ℕ) (x y : BitVec 16) :
      l.foldl (fun acc i => acc ^^^ if a.getLsbD i then (b ^^^ c).setWidth 16 <<< i else 0) (x ^^^ y)
        = l.foldl (fun acc i => acc ^^^ if a.getLsbD i then b.setWidth 16 <<< i else 0) x
          ^^^ l.foldl (fun acc i => acc ^^^ if a.getLsbD i then c.setWidth 16 <<< i else 0) y := by
    induction l generalizing x y with
    | nil => rfl
    | cons i l ih =>
      rw [List.foldl_cons, List.foldl_cons, List.foldl_cons, ← ih, hterm, xor_xor_xor_comm]
  exact hfold (List.range 8) 0 0

lemma cancel_xor (x y : BitVec 16) (i : ℕ) : cancel (x ^^^ y) i = cancel x i ^^^ cancel y i := by
  unfold cancel
  rw [BitVec.getLsbD_xor, xor_xor_xor_comm x]
  congr 1
  cases x.getLsbD (i + 8) <;> cases y.getLsbD (i + 8) <;> simp

/-- Reduction is linear. -/
lemma reduce_xor (x y : BitVec 16) : reduce (x ^^^ y) = reduce x ^^^ reduce y := by
  have hfold (l : List ℕ) (x y : BitVec 16) :
      l.foldl cancel (x ^^^ y) = l.foldl cancel x ^^^ l.foldl cancel y := by
    induction l generalizing x y with
    | nil => rfl
    | cons i l ih => rw [List.foldl_cons, List.foldl_cons, List.foldl_cons, cancel_xor, ih]
  unfold reduce
  rw [hfold, BitVec.setWidth_xor]

lemma mul_xor (a b c : BitVec 8) : mul a (b ^^^ c) = mul a b ^^^ mul a c := by
  unfold mul
  rw [product_xor, reduce_xor]

lemma xor_product (a b c : BitVec 8) : product (a ^^^ b) c = product a c ^^^ product b c := by
  have hterm (i : ℕ) : (if (a ^^^ b).getLsbD i then c.setWidth 16 <<< i else 0)
      = (if a.getLsbD i then c.setWidth 16 <<< i else (0 : BitVec 16))
        ^^^ if b.getLsbD i then c.setWidth 16 <<< i else 0 := by
    rw [BitVec.getLsbD_xor]
    cases a.getLsbD i <;> cases b.getLsbD i <;> simp
  have hfold (l : List ℕ) (x y : BitVec 16) :
      l.foldl (fun acc i => acc ^^^ if (a ^^^ b).getLsbD i then c.setWidth 16 <<< i else 0) (x ^^^ y)
        = l.foldl (fun acc i => acc ^^^ if a.getLsbD i then c.setWidth 16 <<< i else 0) x
          ^^^ l.foldl (fun acc i => acc ^^^ if b.getLsbD i then c.setWidth 16 <<< i else 0) y := by
    induction l generalizing x y with
    | nil => rfl
    | cons i l ih =>
      rw [List.foldl_cons, List.foldl_cons, List.foldl_cons, ← ih, hterm, xor_xor_xor_comm]
  exact hfold (List.range 8) 0 0

/-- So products are linear in both factors. -/
lemma xor_mul (a b c : BitVec 8) : mul (a ^^^ b) c = mul a c ^^^ mul b c := by
  unfold mul
  rw [xor_product, reduce_xor]

/-! ## Multiples -/

/-- Multiples by a power of the polynomial `x` are repeated doublings. -/
lemma power_mul : ∀ b : BitVec 8,
    mul 1 b = b ∧ mul 4 b = mul 2 (mul 2 b) ∧ mul 8 b = mul 2 (mul 2 (mul 2 b)) := by
  decide +kernel

section
variable (b : BitVec 8)

lemma one_mul : mul 1 b = b := (power_mul b).1

lemma four_mul : mul 4 b = mul 2 (mul 2 b) := (power_mul b).2.1

lemma eight_mul : mul 8 b = mul 2 (mul 2 (mul 2 b)) := (power_mul b).2.2

lemma three_mul : mul 3 b = mul 2 b ^^^ b := by
  rw [show (3 : BitVec 8) = 2 ^^^ 1 from rfl, xor_mul, one_mul]

lemma nine_mul : mul 9 b = mul 2 (mul 2 (mul 2 b)) ^^^ b := by
  rw [show (9 : BitVec 8) = 8 ^^^ 1 from rfl, xor_mul, one_mul, eight_mul]

lemma eleven_mul : mul 11 b = mul 2 (mul 2 (mul 2 b)) ^^^ mul 2 b ^^^ b := by
  rw [show (11 : BitVec 8) = 8 ^^^ 2 ^^^ 1 from rfl, xor_mul, xor_mul, one_mul, eight_mul]

lemma thirteen_mul : mul 13 b = mul 2 (mul 2 (mul 2 b)) ^^^ mul 2 (mul 2 b) ^^^ b := by
  rw [show (13 : BitVec 8) = 8 ^^^ 4 ^^^ 1 from rfl, xor_mul, xor_mul, one_mul, eight_mul, four_mul]

lemma fourteen_mul :
    mul 14 b = mul 2 (mul 2 (mul 2 b)) ^^^ mul 2 (mul 2 b) ^^^ mul 2 b := by
  rw [show (14 : BitVec 8) = 8 ^^^ 4 ^^^ 2 from rfl, xor_mul, xor_mul, eight_mul, four_mul]

end

/-! ## Inverses -/

/-- The two sides of the multiplicative inverse, on all elements. -/
lemma inverse_spec : ∀ a : BitVec 8,
    mul a (inverse a) = (if a = 0 then 0 else 1) ∧ (a = 0 → inverse a = 0) := by
  decide +kernel

/-- Every element but zero has an inverse. -/
lemma mul_inverse (a : BitVec 8) : mul a (inverse a) = if a = 0 then 0 else 1 := (inverse_spec a).1

lemma inverse_zero : inverse 0 = 0 := (inverse_spec 0).2 rfl

/-! ## Sums of four terms -/

/-- The sum of four terms. -/
def xor4 (f : Fin 4 → BitVec 8) : BitVec 8 := f 0 ^^^ f 1 ^^^ f 2 ^^^ f 3

lemma mul_xor4 (a : BitVec 8) (f : Fin 4 → BitVec 8) : mul a (xor4 f) = xor4 fun j => mul a (f j) := by
  unfold xor4
  rw [mul_xor, mul_xor, mul_xor]

/-- A double sum can be taken in either order. -/
lemma xor4_comm (f : Fin 4 → Fin 4 → BitVec 8) :
    (xor4 fun j => xor4 fun k => f j k) = xor4 fun k => xor4 fun j => f j k := by
  unfold xor4
  dsimp only
  ac_rfl

/-- The terms of a sum may be rotated. -/
lemma xor4_sub (f : Fin 4 → BitVec 8) (r : Fin 4) : (xor4 fun j => f (j - r)) = xor4 f := by
  unfold xor4
  fin_cases r
  · rfl
  · show f 3 ^^^ f 0 ^^^ f 1 ^^^ f 2 = _
    ac_rfl
  · show f 2 ^^^ f 3 ^^^ f 0 ^^^ f 1 = _
    ac_rfl
  · show f 1 ^^^ f 2 ^^^ f 3 ^^^ f 0 = _
    ac_rfl

lemma xor4_ite (f : Fin 4 → BitVec 8) (r : Fin 4) :
    (xor4 fun k => if k - r = 0 then f k else 0) = f r := by
  unfold xor4
  fin_cases r <;> simp

/-! ## Circulant matrices -/

/-- The product of a column with the circulant matrix whose first row is given. -/
def circulant (coeffs column : Fin 4 → BitVec 8) (r : Fin 4) : BitVec 8 :=
  xor4 fun j => mul (coeffs (j - r)) (column j)

/-- The entry `i` of the first row of the product of two circulant matrices is `0` or `1`, as in
the unit matrix. -/
def InverseEntry (coeffs coeffs' : Fin 4 → BitVec 8) (i : Fin 4) : Prop :=
  ∀ x, (xor4 fun j => mul (coeffs j) (mul (coeffs' (i - j)) x)) = if i = 0 then x else 0

/-- A circulant matrix undoes another one if their product is the unit matrix. -/
theorem circulant_circulant {coeffs coeffs' : Fin 4 → BitVec 8}
    (h : ∀ i, InverseEntry coeffs coeffs' i) (column : Fin 4 → BitVec 8) :
    circulant coeffs (circulant coeffs' column) = column := by
  funext r
  unfold circulant
  simp only [mul_xor4]
  rw [xor4_comm]
  have hentry (k : Fin 4) :
      (xor4 fun j => mul (coeffs (j - r)) (mul (coeffs' (k - j)) (column k)))
        = if k - r = 0 then column k else 0 := by
    have hrotate := xor4_sub (fun j => mul (coeffs j) (mul (coeffs' (k - r - j)) (column k))) r
    simp only [sub_sub_sub_cancel_right] at hrotate
    rw [hrotate]
    exact h (k - r) (column k)
  simp only [hentry]
  exact xor4_ite column r

end RandomXSp1.Gf256
