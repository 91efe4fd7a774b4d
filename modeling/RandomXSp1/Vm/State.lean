import RandomXSp1.Loops
import RandomXSp1.Aes
import RandomXSp1.Memory
import RandomXSp1.SoftFp.Basic

/-!
# The state of the virtual machine

`Vm` of `vm.rs` with its nested records flattened, the two-lane values of `m128.rs`, and what
`vm.rs` and the optimized interpreter have in common word for word. A value of type `usize` is a
64-bit word where it is computed with and a natural number where it only indexes; a program
counter is an integer.
-/

namespace RandomXSp1

open SoftFp (RoundingMode)

/-! ## Constants -/

def scratchpadL1Mask : U64 := 0x3ff8
def scratchpadL2Mask : U64 := 0x3fff8
def scratchpadL3Mask : U64 := 0x1ffff8
def scratchpadL3MaskU32 : U32 := 0x1fffc0
def scratchpadWords : ℕ := 262144
def cacheLineAlignMask : U64 := 2147483584

def programCount : ℕ := 8
def programSize : ℕ := 256
def programIterations : ℕ := 2048
def programBytes : ℕ := 136
def datasetExtraItems : U64 := 524287

def mantissaMask : U64 := 0xfffffffffffff
def exponentBias : U64 := 1023
def exponentMask : U64 := 0x7ff
def exponentBits : U64 := 0x300
def dynamicMantissaMask : U64 := 0xffffffffffffff
def conditionMask : U64 := 0xff

/-! ## Two-lane values -/

/-- `m128d`: its `u128` is the concatenation of the lanes. -/
structure M128d where
  high : U64
  low : U64
  deriving DecidableEq

namespace M128d

def zero : M128d := ⟨0, 0⟩

/-- A bitwise operator acts on each lane. -/
def bitwise (op : U64 → U64 → U64) (x y : M128d) : M128d := ⟨op x.high y.high, op x.low y.low⟩

def xor : M128d → M128d → M128d := bitwise (· ^^^ ·)
def and : M128d → M128d → M128d := bitwise (· &&& ·)
def or : M128d → M128d → M128d := bitwise (· ||| ·)

def shuffle1 (x other : M128d) : M128d := ⟨other.low, x.high⟩

/-- `m128i::as_m128d`. -/
def ofM128i (x : U128) : M128d := ⟨Aes.high x, Aes.low x⟩

end M128d

/-- `n as i32 as f64`, which is exact. -/
def f64OfI32 (n : U32) : U64 :=
  let magnitude := n.toInt.natAbs
  let exponent := Nat.log2 magnitude
  let bits := if magnitude = 0 then 0
    else (1022 + exponent) * 2 ^ 52 + magnitude * 2 ^ (52 - exponent)
  BitVec.ofNat 64 (bits + if n.toInt < 0 then 2 ^ 63 else 0)

/-- `m128i::lower_to_m128d`. -/
def lowerToM128d (x : U128) : M128d :=
  ⟨f64OfI32 ((x >>> 32).setWidth 32), f64OfI32 (x.setWidth 32)⟩

/-- A word of the scratchpad as two lanes: `m128i::from_u64(0, word).lower_to_m128d()`. -/
def lanesOfWord (word : U64) : M128d := lowerToM128d (Aes.fromU64 0 word)

/-! ## Lane arithmetic -/

/-- An operation on one lane in a rounding mode. -/
inductive LaneCall where
  | add (mode : RoundingMode) (a b : U64)
  | sub (mode : RoundingMode) (a b : U64)
  | mul (mode : RoundingMode) (a b : U64)
  | div (mode : RoundingMode) (a b : U64)
  | sqrt (mode : RoundingMode) (a : U64)
  deriving DecidableEq

/-- Exchanges the operands of the operations that allow it. -/
def LaneCall.swap : LaneCall → LaneCall
  | add mode a b => add mode b a
  | mul mode a b => mul mode b a
  | call => call

/-- Lane arithmetic that may be restricted to some calls. -/
abbrev LaneOps := LaneCall → Option U64

/-- An operation of two operands on both lanes. -/
def LaneOps.both (ops : LaneOps) (call : U64 → U64 → LaneCall) (x y : M128d) : Option M128d := do
  let low ← ops (call x.low y.low)
  let high ← ops (call x.high y.high)
  return ⟨high, low⟩

def LaneOps.bothSqrt (ops : LaneOps) (mode : RoundingMode) (x : M128d) : Option M128d := do
  let low ← ops (.sqrt mode x.low)
  let high ← ops (.sqrt mode x.high)
  return ⟨high, low⟩

/-! ## Machine state -/

structure Vm where
  mx : U64
  ma : U64
  r : Vector U64 8
  f : Vector M128d 4
  e : Vector M128d 4
  a : Vector M128d 4
  scratchpad : Array U64
  pc : ℤ
  eMask : Vector U64 2
  readReg : Vector ℕ 4
  mem : SeedMemory
  datasetOffset : U64
  roundingMode : U8

namespace Vm

/-- `new_vm`. -/
def newVm (mem : SeedMemory) : Vm where
  mx := 0
  ma := 0
  r := Vector.replicate 8 0
  f := Vector.replicate 4 M128d.zero
  e := Vector.replicate 4 M128d.zero
  a := Vector.replicate 4 M128d.zero
  scratchpad := Array.replicate scratchpadWords 0
  pc := 0
  eMask := Vector.replicate 2 0
  readReg := Vector.replicate 4 0
  mem := mem
  datasetOffset := 0
  roundingMode := 0

lemma size_newVm (mem : SeedMemory) : (newVm mem).scratchpad.size = scratchpadWords :=
  Array.size_replicate

/-- `Register::to_bytes`. -/
def registerBytes (vm : Vm) : List U8 :=
  let lanes (file : Vector M128d 4) : List U64 := file.toList.flatMap fun x => [x.low, x.high]
  (vm.r.toList ++ lanes vm.f ++ lanes vm.e ++ lanes vm.a).flatMap Argon2.wordBytes

def resetRoundingMode (vm : Vm) : Vm := { vm with roundingMode := 0 }

/-- The assertion refuses a mode above three. -/
def setRoundingMode (vm : Vm) (mode : U32) : Option Vm :=
  if mode < 4 then some { vm with roundingMode := mode.setWidth 8 } else none

def getRoundingMode (vm : Vm) : U32 := vm.roundingMode.setWidth 32

def initScratchpad (vm : Vm) (seed : Aes.State) : Option (Vm × Aes.State) := do
  let (scratchpad, next) ← Aes.fillAes1rx4U64 seed vm.scratchpad
  return ({ vm with scratchpad }, next)

/-- `mask_register_exponent_mantissa`. -/
def maskRegisterExponentMantissa (vm : Vm) (value : M128d) : M128d :=
  let mantissaMask : M128d := ⟨dynamicMantissaMask, dynamicMantissaMask⟩
  let exponentMask : M128d := ⟨vm.eMask[1], vm.eMask[0]⟩
  (value.and mantissaMask).or exponentMask

/-! ## Initialisation from the entropy of a program -/

def smallPositiveFloatBit (entropy : U64) : U64 :=
  let exponent := entropy >>> 59
  let mantissa := entropy &&& mantissaMask
  let exponent := exponent + exponentBias
  let exponent := exponent &&& exponentMask
  (exponent <<< 52) ||| mantissa

def staticExponent (entropy : U64) : U64 :=
  let exponent := exponentBits ||| ((entropy >>> 60) <<< 4)
  exponent <<< 52

def floatMask (entropy : U64) : U64 :=
  let mask22bit : U64 := (1 <<< 22) - 1
  (entropy &&& mask22bit) ||| staticExponent entropy

/-- The body of `init_vm`, the same in both interpreters. -/
def initVm (vm : Vm) (entropy : Vector U64 16) : Vm :=
  let addressReg := entropy[12].toNat
  { vm with
    a := #v[
      ⟨smallPositiveFloatBit entropy[1], smallPositiveFloatBit entropy[0]⟩,
      ⟨smallPositiveFloatBit entropy[3], smallPositiveFloatBit entropy[2]⟩,
      ⟨smallPositiveFloatBit entropy[5], smallPositiveFloatBit entropy[4]⟩,
      ⟨smallPositiveFloatBit entropy[7], smallPositiveFloatBit entropy[6]⟩]
    ma := ((entropy[8] &&& cacheLineAlignMask).setWidth 32).setWidth 64
    mx := (entropy[10].setWidth 32).setWidth 64
    readReg := #v[addressReg % 2, 2 + addressReg / 2 % 2, 4 + addressReg / 4 % 2,
      6 + addressReg / 8 % 2]
    datasetOffset := entropy[13] % (datasetExtraItems + 1) * cacheLineSize
    eMask := #v[floatMask entropy[14], floatMask entropy[15]]
    r := Vector.replicate 8 0 }

end Vm

/-! ## Hashes and seeds -/

/-- `blake2b` and `Params::hash_length`, with a digest of the requested length. -/
abbrev Blake2b := (len : ℕ) → List U8 → Vector U8 len

/-- `hash_to_m128i_array`. -/
def hashToM128iArray (hash : Vector U8 64) : Aes.State :=
  Vector.ofFn fun i => Aes.fromU8 ((hash.toList.drop (16 * i)).take 16)

/-- The low and high words of the first eight entries of a generated program. -/
def entropyOf (bytes : List U128) : Vector U64 16 :=
  Vector.ofFn fun i : Fin 16 =>
    let word := bytes.getD (i / 2) 0
    if (i : ℕ) % 2 = 0 then Aes.low word else Aes.high word

/-- The instruction words of a generated program, in the order they are decoded. -/
def instructionWords (bytes : List U128) : List U64 :=
  (bytes.drop 8).flatMap fun word => [Aes.low word, Aes.high word]

end RandomXSp1
