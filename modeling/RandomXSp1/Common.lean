import Mathlib
import RandomXSp1.Loops

/-!
# Machine integers and the helpers of `common.rs`

Fixed-width integers are bit vectors; signed ones share the type and are read with `toInt`.
A function that can panic, or whose unchecked access can leave its buffer, returns an
`Option`, with `none` for that outcome.
-/

namespace RandomXSp1

abbrev U8 := BitVec 8
abbrev U16 := BitVec 16
abbrev U32 := BitVec 32
abbrev U64 := BitVec 64
abbrev U128 := BitVec 128

/-! ## Little-endian bytes -/

/-- `u32::to_le_bytes`. -/
def toLeBytes (value : U32) : List U8 :=
  [value.setWidth 8, (value >>> 8).setWidth 8, (value >>> 16).setWidth 8,
    (value >>> 24).setWidth 8]

/-- The number with the bytes as its digits, little-endian. -/
def leBytesToNat (bytes : List U8) : ℕ := Nat.ofDigits 256 (bytes.map BitVec.toNat)

/-! ## Immediates and wide products -/

def int32Max : U32 := 0x7fffffff#32

/-- The sign extension of a 32-bit immediate, as the source computes it. -/
def u64FromI32Imm (imm : U32) : U64 :=
  if int32Max < imm then imm.setWidth 64 ||| 0xffffffff00000000#64 else imm.setWidth 64

def u64FromU32Imm (imm : U32) : U64 :=
  if int32Max < imm then imm.setWidth 64 ||| 0xffffffff00000000#64 else imm.setWidth 64

/-- The high half of the unsigned product. -/
def mulh (a b : U64) : U64 :=
  ((a.setWidth 128 * b.setWidth 128) >>> 64).setWidth 64

/-- The high half of the signed product. -/
def smulh (a b : U64) : U64 :=
  ((a.signExtend 128 * b.signExtend 128).sshiftRight 64).setWidth 64

/-! ## Reciprocals -/

def isZeroOrPowerOf2 (value : U64) : Bool := value &&& (value - 1) == 0

/-- The number of significant bits of the divisor, counted by shifting it out. -/
def reciprocalBsr : ℕ → U64 → ℕ
  | 0, _ => 0
  | fuel + 1, bit => if bit = 0 then 0 else reciprocalBsr fuel (bit >>> 1) + 1

/-- One step of the long division: `(quotient, remainder)`. -/
def reciprocalStep (divisor : U64) (qr : U64 × U64) : U64 × U64 :=
  if divisor - qr.2 ≤ qr.2 then (qr.1 * 2 + 1, qr.2 * 2 - divisor) else (qr.1 * 2, qr.2 * 2)

/-- `2^x / divisor` for the largest `x` that keeps the quotient below `2^64`. The 64-bit
divisor is shifted out after at most 64 rounds. -/
def randomxReciprocal (divisor : U64) : Option U64 :=
  if divisor = 0 then none
  else
    let p2Exp63 : U64 := 1 <<< 63
    let bsr := reciprocalBsr 64 divisor
    some (Nat.iterate (reciprocalStep divisor) bsr (p2Exp63 / divisor, p2Exp63 % divisor)).1

lemma ne_zero_of_not_isZeroOrPowerOf2 {value : U64} (h : isZeroOrPowerOf2 value = false) :
    value ≠ 0 := by
  rintro rfl
  simp [isZeroOrPowerOf2] at h

/-- The reciprocal of a nonzero divisor is computed without a panic. -/
lemma exists_randomxReciprocal {divisor : U64} (h : divisor ≠ 0) :
    ∃ q, randomxReciprocal divisor = some q := by
  rw [randomxReciprocal, if_neg h]
  exact ⟨_, rfl⟩

end RandomXSp1
