import RandomXSp1.Vm.State

/-!
# The optimized interpreter of `randomx-sp1`

Compact instructions, whose operands are byte offsets into the register files and masks of the
scratchpad, their decoder and effects, and the loops of `run` and `calculate_hash_impl`.
Registers, instructions and scratchpad words are reached without bounds checks: an access that
its `debug_assert` excludes is undefined behaviour, and `none` here, as a panic is.
-/

namespace RandomXSp1.Optimized

open SoftFp (RoundingMode)

/-! ## Compact instructions -/

def conditionOffset : U8 := 8
def storeL3Condition : U8 := 14

/-- The marker of an operand that is not a register. -/
def noReg : U8 := 255

/-- The three modes of a memory operand. -/
def memL1 : U8 := 0
def memL2 : U8 := 1
def memL3 : U8 := 2

/-- `size_of::<u64>()` and `size_of::<m128d>()`. -/
def intStride : U8 := 8
def floatStride : U8 := 16

/-- The functions a decoded instruction can point to, named after them. -/
inductive Effect where
  | nop
  | iaddRs
  | iaddM
  | isubR
  | isubImm
  | isubM
  | imulR
  | imulImm
  | imulM
  | imulhR
  | imulhM
  | ismulhR
  | ismulhM
  | imulRcp
  | inegR
  | ixorR
  | ixorImm
  | ixorM
  | irorR
  | irorImm
  | irolR
  | irolImm
  | iswapR
  | fswapF
  | fswapE
  | faddR
  | faddM
  | fsubR
  | fsubM
  | fscalR
  | fmulR
  | fdivM
  | fsqrtR
  | cbranch
  | cfround
  | istore
  deriving DecidableEq, Repr

/-- A decoded instruction: registers as byte offsets, and a mask instead of a level. -/
structure CompactInstr where
  effect : Effect
  imm : U64
  target : ℤ
  memoryMask : U32
  dst : U8
  src : U8
  mode : U8
  deriving DecidableEq

/-- The marker is kept. -/
def registerByteOffset (index stride : U8) : U8 := if index = noReg then noReg else index * stride

/-- The three masks; another mode is unreachable. -/
def memoryMask (mode : U8) : Option U32 :=
  if mode = memL1 then some (scratchpadL1Mask.setWidth 32)
  else if mode = memL2 then some (scratchpadL2Mask.setWidth 32)
  else if mode = memL3 then some (scratchpadL3Mask.setWidth 32)
  else none

namespace CompactInstr

/-- An instruction on integer registers, without a memory operand. -/
def new (effect : Effect) (dst src : U8) (imm : U64) (mode : U8) : CompactInstr where
  effect := effect
  imm := imm
  target := 0
  memoryMask := 0
  dst := registerByteOffset dst intStride
  src := registerByteOffset src intStride
  mode := mode

/-- One on two-lane registers. -/
def newFloat (effect : Effect) (dst src : U8) (imm : U64) (mode : U8) : CompactInstr :=
  { new effect dst src imm mode with
    dst := registerByteOffset dst floatStride
    src := registerByteOffset src floatStride }

/-- One with a memory operand, whose mask is looked up. -/
def newMemory (effect : Effect) (dst src : U8) (imm : U64) (mode : U8) : Option CompactInstr := do
  let mask ← Optimized.memoryMask mode
  return { new effect dst src imm mode with memoryMask := mask }

end CompactInstr

/-! ## Decoding -/

/-- The immediate variant is chosen if the source is the destination. -/
def decodeRegOrImm (registerEffect immediateEffect : Effect) (dst src : U8) (imm32 : U32) :
    CompactInstr :=
  if dst = src then CompactInstr.new immediateEffect dst noReg (u64FromI32Imm imm32) 0
  else CompactInstr.new registerEffect dst src 0 0

/-- A fixed offset is masked when it is decoded. -/
def decodeMemory (effect : Effect) (dst addressReg : U8) (imm32 : U32) (modifier : U8)
    (sameRegister : Bool) : Option CompactInstr :=
  if sameRegister then
    CompactInstr.newMemory effect dst noReg (imm32.setWidth 64 &&& scratchpadL3Mask) memL3
  else
    let mode := if modifier &&& 3 = 0 then memL2 else memL1
    CompactInstr.newMemory effect dst addressReg (u64FromI32Imm imm32) mode

def decodeFloatMemory (effect : Effect) (dst addressReg : U8) (imm32 : U32) (modifier : U8)
    (sameRegister : Bool) : Option CompactInstr := do
  let instr ← decodeMemory effect dst addressReg imm32 modifier sameRegister
  return { instr with dst := registerByteOffset dst floatStride }

/-- An index as the `u8` the constructors take. -/
def regU8 {n : ℕ} (i : Fin n) : U8 := BitVec.ofNat 8 i

/-- The instruction and the new register usage. -/
def decodeInstruction (raw : U64) (index : ℤ) (usage : Vector ℤ 8) :
    Option (CompactInstr × Vector ℤ 8) :=
  let op := (raw &&& 0xff).toNat
  let dst := ((raw >>> 8) &&& 0xff).toNat
  let src := ((raw >>> 16) &&& 0xff).toNat
  let modifier : U8 := ((raw >>> 24) &&& 0xff).setWidth 8
  let imm32 : U32 := (raw >>> 32).setWidth 32
  let dstR := Fin.ofNat 8 dst
  let srcR := Fin.ofNat 8 src
  let dst8 := regU8 dstR
  let src8 := regU8 srcR
  let dstF := regU8 (Fin.ofNat 4 dst)
  let srcF := regU8 (Fin.ofNat 4 src)
  let written := usage.set dstR index
  let memory (effect : Effect) : Option (CompactInstr × Vector ℤ 8) := do
    return (← decodeMemory effect dst8 src8 imm32 modifier (dst8 == src8), written)
  let floatMemory (effect : Effect) : Option (CompactInstr × Vector ℤ 8) := do
    return (← decodeFloatMemory effect dstF src8 imm32 modifier false, usage)
  if op < 0x10 then
    let imm := if dst8 = 5 then u64FromI32Imm imm32 else 0
    some (CompactInstr.new .iaddRs dst8 src8 imm ((modifier >>> 2) &&& 3), written)
  else if op < 0x17 then memory .iaddM
  else if op < 0x27 then some (decodeRegOrImm .isubR .isubImm dst8 src8 imm32, written)
  else if op < 0x2e then memory .isubM
  else if op < 0x3e then some (decodeRegOrImm .imulR .imulImm dst8 src8 imm32, written)
  else if op < 0x42 then memory .imulM
  else if op < 0x46 then some (CompactInstr.new .imulhR dst8 src8 0 0, written)
  else if op < 0x47 then memory .imulhM
  else if op < 0x4b then some (CompactInstr.new .ismulhR dst8 src8 0 0, written)
  else if op < 0x4c then memory .ismulhM
  else if op < 0x54 then
    let divisor : U64 := imm32.setWidth 64
    if isZeroOrPowerOf2 divisor then some (CompactInstr.new .imulRcp dst8 noReg 0 0, usage)
    else do
      let reciprocal ← randomxReciprocal divisor
      return (CompactInstr.new .imulRcp dst8 noReg reciprocal 0, written)
  else if op < 0x56 then some (CompactInstr.new .inegR dst8 noReg 0 0, written)
  else if op < 0x65 then some (decodeRegOrImm .ixorR .ixorImm dst8 src8 imm32, written)
  else if op < 0x6a then memory .ixorM
  else if op < 0x72 then some (decodeRegOrImm .irorR .irorImm dst8 src8 (imm32 &&& 63), written)
  else if op < 0x74 then some (decodeRegOrImm .irolR .irolImm dst8 src8 (imm32 &&& 63), written)
  else if op < 0x78 then
    if src8 = dst8 then some (CompactInstr.new .nop noReg noReg 0 0, usage)
    else some (CompactInstr.new .iswapR dst8 src8 0 0, written.set srcR index)
  else if op < 0x7c then
    let effect := if dst8 ≥ 4 then Effect.fswapE else Effect.fswapF
    some (CompactInstr.newFloat effect (dst8 % 4) noReg 0 0, usage)
  else if op < 0x8c then some (CompactInstr.newFloat .faddR dstF srcF 0 0, usage)
  else if op < 0x91 then floatMemory .faddM
  else if op < 0xa1 then some (CompactInstr.newFloat .fsubR dstF srcF 0 0, usage)
  else if op < 0xa6 then floatMemory .fsubM
  else if op < 0xac then some (CompactInstr.newFloat .fscalR dstF noReg 0 0, usage)
  else if op < 0xcc then some (CompactInstr.newFloat .fmulR dstF srcF 0 0, usage)
  else if op < 0xd0 then floatMemory .fdivM
  else if op < 0xd6 then some (CompactInstr.newFloat .fsqrtR dstF noReg 0 0, usage)
  else if op < 0xef then
    let conditionShift := (modifier >>> 4) + conditionOffset
    let increment := u64FromI32Imm imm32 ||| (1#64 <<< conditionShift.toNat)
    let increment := increment &&& ~~~(1#64 <<< (conditionShift.toNat - 1))
    some ({ CompactInstr.new .cbranch dst8 noReg increment conditionShift with
        target := usage[dstR] }, Vector.replicate 8 index)
  else if op < 0xf0 then
    some (CompactInstr.new .cfround noReg src8 ((imm32 &&& 63).setWidth 64) 0, usage)
  else if op < 0x100 then
    let condition := modifier >>> 4
    let mode := if condition ≥ storeL3Condition then memL3
      else if modifier &&& 3 = 0 then memL2 else memL1
    do return (← CompactInstr.newMemory .istore dst8 src8 (u64FromI32Imm imm32) mode, usage)
  else some (CompactInstr.new .nop noReg noReg 0 0, usage)

structure CompactProgram where
  entropy : Vector U64 16
  instructions : Array CompactInstr

/-- The decoding loop, from instruction `index`. -/
def decodeInstructions (index : ℤ) (usage : Vector ℤ 8) : List U64 → Option (List CompactInstr)
  | [] => some []
  | raw :: rest => do
    let (instr, usage) ← decodeInstruction raw index usage
    return instr :: (← decodeInstructions (index + 1) usage rest)

/-- The assertions are on the lengths of the arrays. -/
def CompactProgram.fromBytes (bytes : List U128) : Option CompactProgram := do
  guard (bytes.length = programBytes)
  let instructions ← decodeInstructions 0 (Vector.replicate 8 (-1)) (instructionWords bytes)
  guard (instructions.length = programSize)
  return { entropy := entropyOf bytes, instructions := instructions.toArray }

/-! ## Unchecked accesses -/

/-- The element at a byte offset of a register file, with the given stride. -/
def readFile {α : Type} {n : ℕ} (stride : ℕ) (file : Vector α n) (byteOffset : U8) : Option α :=
  if byteOffset.toNat % stride = 0 ∧ byteOffset.toNat < n * stride then
    file[byteOffset.toNat / stride]?
  else none

def writeFile {α : Type} {n : ℕ} (stride : ℕ) (file : Vector α n) (byteOffset : U8) (value : α) :
    Option (Vector α n) :=
  if byteOffset.toNat % stride = 0 ∧ byteOffset.toNat < n * stride then
    some (file.setIfInBounds (byteOffset.toNat / stride) value)
  else none

/-- Unchecked accesses to the register files, at byte offsets. -/
def r (vm : Vm) (byteOffset : U8) : Option U64 := readFile 8 vm.r byteOffset

def setR (vm : Vm) (byteOffset : U8) (value : U64) : Option Vm :=
  (writeFile 8 vm.r byteOffset value).map fun r => { vm with r }

def f (vm : Vm) (byteOffset : U8) : Option M128d := readFile 16 vm.f byteOffset

def setF (vm : Vm) (byteOffset : U8) (value : M128d) : Option Vm :=
  (writeFile 16 vm.f byteOffset value).map fun f => { vm with f }

def e (vm : Vm) (byteOffset : U8) : Option M128d := readFile 16 vm.e byteOffset

def setE (vm : Vm) (byteOffset : U8) (value : M128d) : Option Vm :=
  (writeFile 16 vm.e byteOffset value).map fun e => { vm with e }

def a (vm : Vm) (byteOffset : U8) : Option M128d := readFile 16 vm.a byteOffset

/-- `RoundingMode::from_valid_fprc`, for the modes below four. -/
def fromValidFprc (fprc : U32) : Option RoundingMode :=
  match fprc.toNat with
  | 0 => some .nearest
  | 1 => some .down
  | 2 => some .up
  | 3 => some .towardZero
  | _ => none

def roundingMode (vm : Vm) : Option RoundingMode := fromValidFprc vm.getRoundingMode

/-- The byte offset of the operand: the register and the immediate within the mask, or the fixed
offset. -/
def scratchpadSrcOffset (vm : Vm) (instr : CompactInstr) : Option U64 := do
  guard (instr.memoryMask ≠ 0)
  let address ← (if instr.src = noReg then some instr.imm
    else (r vm instr.src).map fun base => base + instr.imm)
  return address &&& instr.memoryMask.setWidth 64

def scratchpadDstOffset (vm : Vm) (instr : CompactInstr) : Option U64 := do
  guard (instr.memoryMask ≠ 0)
  let base ← r vm instr.dst
  return (base + instr.imm) &&& instr.memoryMask.setWidth 64

/-- Unchecked accesses to the scratchpad, at word indices. -/
def scratch (scratchpad : Array U64) (index : ℕ) : Option U64 := scratchpad[index]?

def setScratch (scratchpad : Array U64) (index : ℕ) (value : U64) : Option (Array U64) :=
  if index < scratchpad.size then some (scratchpad.setIfInBounds index value) else none

/-- What the `debug_assert`s on a byte offset into the scratchpad demand. -/
def offsetAllowed (scratchpad : Array U64) (byteOffset : U64) : Bool :=
  byteOffset &&& 7 = 0 && byteOffset.toNat + 8 ≤ scratchpad.size * 8

/-- Unchecked accesses at byte offsets; one that is not allowed is undefined. -/
def scratchAtOffset (vm : Vm) (byteOffset : U64) : Option U64 :=
  if offsetAllowed vm.scratchpad byteOffset then vm.scratchpad[byteOffset.toNat / 8]? else none

def setScratchAtOffset (vm : Vm) (byteOffset : U64) (value : U64) : Option Vm :=
  if offsetAllowed vm.scratchpad byteOffset then
    some { vm with scratchpad := vm.scratchpad.setIfInBounds (byteOffset.toNat / 8) value }
  else none

/-! ## Effects -/

section
variable (vm : Vm) (instr : CompactInstr)

/-- The common shape of the integer effects on two registers. -/
def onRegisters (op : U64 → U64 → U64) : Option Vm := do
  setR vm instr.dst (op (← r vm instr.dst) (← r vm instr.src))

/-- The common shape of the integer effects with an immediate. -/
def onImmediate (op : U64 → U64 → U64) : Option Vm := do
  setR vm instr.dst (op (← r vm instr.dst) instr.imm)

/-- The common shape of the integer effects with a scratchpad operand. -/
def onMemory (op : U64 → U64 → U64) : Option Vm := do
  let value ← scratchAtOffset vm (← scratchpadSrcOffset vm instr)
  setR vm instr.dst (op (← r vm instr.dst) value)

/-- The rotation by a register: the amount is its low 24 bits. -/
def rorR (dst src : U64) : U64 := dst.rotateRight ((src &&& 0xffffff).setWidth 32).toNat

/-- As in `rorR`, the count is cut to 24 bits. -/
def rolR (dst src : U64) : U64 := dst.rotateLeft ((src &&& 0xffffff).setWidth 32).toNat

/-- The handlers. -/
def execNop : Option Vm := some vm

def execIaddRs : Option Vm := do
  let addend := ((← r vm instr.src) <<< instr.mode.toNat) + instr.imm
  setR vm instr.dst ((← r vm instr.dst) + addend)

def execIaddM := onMemory vm instr (· + ·)
def execIsubR := onRegisters vm instr (· - ·)
def execIsubImm := onImmediate vm instr (· - ·)
def execIsubM := onMemory vm instr (· - ·)
def execImulR := onRegisters vm instr (· * ·)
def execImulImm := onImmediate vm instr (· * ·)
def execImulM := onMemory vm instr (· * ·)
def execImulhR := onRegisters vm instr fun dst src => mulh src dst
def execImulhM := onMemory vm instr fun dst src => mulh src dst
def execIsmulhR := onRegisters vm instr fun dst src => smulh src dst
def execIsmulhM := onMemory vm instr fun dst src => smulh src dst

def execImulRcp : Option Vm :=
  if instr.imm ≠ 0 then onImmediate vm instr (· * ·) else some vm

def execInegR : Option Vm := do setR vm instr.dst (~~~(← r vm instr.dst) + 1)

def execIxorR := onRegisters vm instr (· ^^^ ·)
def execIxorImm := onImmediate vm instr (· ^^^ ·)
def execIxorM := onMemory vm instr (· ^^^ ·)
def execIrorR := onRegisters vm instr rorR
def execIrorImm := onImmediate vm instr fun dst imm => dst.rotateRight (imm.setWidth 32).toNat
def execIrolR := onRegisters vm instr rolR
def execIrolImm := onImmediate vm instr fun dst imm => dst.rotateLeft (imm.setWidth 32).toNat

def execIswapR : Option Vm := do
  let source ← r vm instr.src
  let destination ← r vm instr.dst
  let vm ← setR vm instr.dst source
  setR vm instr.src destination

def execFswapF : Option Vm := do
  let value ← f vm instr.dst
  setF vm instr.dst (value.shuffle1 value)

def execFswapE : Option Vm := do
  let value ← e vm instr.dst
  setE vm instr.dst (value.shuffle1 value)

def execFscalR : Option Vm := do
  let mask : M128d := ⟨0x80f0000000000000, 0x80f0000000000000⟩
  setF vm instr.dst ((← f vm instr.dst).xor mask)

def execCbranch : Option Vm := do
  let destination := (← r vm instr.dst) + instr.imm
  let vm ← setR vm instr.dst destination
  if destination &&& (conditionMask <<< instr.mode.toNat) = 0 then
    some { vm with pc := instr.target }
  else some vm

/-- The mode is the two low bits of the rotated register. -/
def execCfround : Option Vm := do
  let mode := (((← r vm instr.src).rotateRight (instr.imm.setWidth 32).toNat) &&& 3).setWidth 32
  vm.setRoundingMode mode

def execIstore : Option Vm := do
  let byteOffset ← scratchpadDstOffset vm instr
  setScratchAtOffset vm byteOffset (← r vm instr.src)

variable (ops : LaneOps)

def execFaddR : Option Vm := do
  let destination ← f vm instr.dst
  let source ← a vm instr.src
  let mode ← roundingMode vm
  setF vm instr.dst (← ops.both (.add mode) destination source)

def execFaddM : Option Vm := do
  let source := lanesOfWord (← scratchAtOffset vm (← scratchpadSrcOffset vm instr))
  let destination ← f vm instr.dst
  let mode ← roundingMode vm
  setF vm instr.dst (← ops.both (.add mode) destination source)

def execFsubR : Option Vm := do
  let destination ← f vm instr.dst
  let source ← a vm instr.src
  let mode ← roundingMode vm
  setF vm instr.dst (← ops.both (.sub mode) destination source)

def execFsubM : Option Vm := do
  let source := lanesOfWord (← scratchAtOffset vm (← scratchpadSrcOffset vm instr))
  let destination ← f vm instr.dst
  let mode ← roundingMode vm
  setF vm instr.dst (← ops.both (.sub mode) destination source)

def execFmulR : Option Vm := do
  let destination ← e vm instr.dst
  let source ← a vm instr.src
  let mode ← roundingMode vm
  setE vm instr.dst (← ops.both (.mul mode) destination source)

def execFdivM : Option Vm := do
  let source := lanesOfWord (← scratchAtOffset vm (← scratchpadSrcOffset vm instr))
  let source := vm.maskRegisterExponentMantissa source
  let destination ← e vm instr.dst
  let mode ← roundingMode vm
  setE vm instr.dst (← ops.both (.div mode) destination source)

def execFsqrtR : Option Vm := do
  let destination ← e vm instr.dst
  let mode ← roundingMode vm
  setE vm instr.dst (← ops.bothSqrt mode destination)

/-- `(instr.effect)(vm, instr)`. -/
def CompactInstr.run : Option Vm :=
  match instr.effect with
  | .nop => execNop vm
  | .iaddRs => execIaddRs vm instr
  | .iaddM => execIaddM vm instr
  | .isubR => execIsubR vm instr
  | .isubImm => execIsubImm vm instr
  | .isubM => execIsubM vm instr
  | .imulR => execImulR vm instr
  | .imulImm => execImulImm vm instr
  | .imulM => execImulM vm instr
  | .imulhR => execImulhR vm instr
  | .imulhM => execImulhM vm instr
  | .ismulhR => execIsmulhR vm instr
  | .ismulhM => execIsmulhM vm instr
  | .imulRcp => execImulRcp vm instr
  | .inegR => execInegR vm instr
  | .ixorR => execIxorR vm instr
  | .ixorImm => execIxorImm vm instr
  | .ixorM => execIxorM vm instr
  | .irorR => execIrorR vm instr
  | .irorImm => execIrorImm vm instr
  | .irolR => execIrolR vm instr
  | .irolImm => execIrolImm vm instr
  | .iswapR => execIswapR vm instr
  | .fswapF => execFswapF vm instr
  | .fswapE => execFswapE vm instr
  | .faddR => execFaddR vm instr ops
  | .faddM => execFaddM vm instr ops
  | .fsubR => execFsubR vm instr ops
  | .fsubM => execFsubM vm instr ops
  | .fscalR => execFscalR vm instr
  | .fmulR => execFmulR vm instr ops
  | .fdivM => execFdivM vm instr ops
  | .fsqrtR => execFsqrtR vm instr ops
  | .cbranch => execCbranch vm instr
  | .cfround => execCfround vm instr
  | .istore => execIstore vm instr

end

/-! ## Runs -/

/-- The local variables of `run` that change from one iteration to the next. -/
structure Locals where
  mx : U64
  ma : U64
  spAddr0 : U32
  spAddr1 : U32

/-- The two addresses of an iteration, as word indices. -/
def spAddresses (locals : Locals) (spMix : U64) : U32 × U32 :=
  (((locals.spAddr0 ^^^ spMix.setWidth 32) &&& scratchpadL3MaskU32) >>> 3,
    ((locals.spAddr1 ^^^ (spMix >>> 32).setWidth 32) &&& scratchpadL3MaskU32) >>> 3)

/-- The loops that load the registers of an iteration. -/
def loadRegisters (vm : Vm) (addr0 addr1 : ℕ) : Option Vm := do
  let r ← updateEach (fun i x => (scratch vm.scratchpad (addr0 + i)).map fun word => x ^^^ word) vm.r
  let f ← updateEach (fun i _ => (scratch vm.scratchpad (addr1 + i)).map lanesOfWord) vm.f
  let e ← updateEach (fun i _ => (scratch vm.scratchpad (addr1 + i + 4)).map fun word =>
    vm.maskRegisterExponentMantissa (lanesOfWord word)) vm.e
  return { vm with r, f, e }

/-- The loops that store the registers of an iteration. -/
def storeRegisters (vm : Vm) (addr0 addr1 : ℕ) : Option Vm := do
  let scratchpad ← (List.finRange 8).foldlM (fun scratchpad (i : Fin 8) =>
    setScratch scratchpad (addr1 + i) vm.r[i]) vm.scratchpad
  let f := Vector.zipWith M128d.xor vm.f vm.e
  let scratchpad ← (List.finRange 4).foldlM (fun scratchpad (i : Fin 4) => do
    let ix := addr0 + 2 * i
    let scratchpad ← setScratch scratchpad ix f[i].low
    setScratch scratchpad (ix + 1) f[i].high) scratchpad
  return { vm with f, scratchpad }

section
variable (ops : LaneOps)

def inLoop (vm : Vm) : Bool := vm.pc < programSize

/-- The body of the instruction loop. -/
def dispatch (program : CompactProgram) (vm : Vm) : Option Vm := do
  let instr ← (if 0 ≤ vm.pc then program.instructions[vm.pc.toNat]? else none)
  let vm ← instr.run vm ops
  return { vm with pc := vm.pc + 1 }

/-- `read_reg` of `run`. -/
def readRegOffsets (vm : Vm) : Vector U8 4 :=
  vm.readReg.map fun i => registerByteOffset (BitVec.ofNat 8 i) intStride

/-- The locals start out from the state. -/
def initLocals (vm : Vm) : Locals where
  mx := vm.mx
  ma := vm.ma
  spAddr0 := vm.mx.setWidth 32
  spAddr1 := vm.ma.setWidth 32

/-- An iteration up to its instruction loop, with `addr0` and `addr1`. -/
def enterLoop (readReg : Vector U8 4) (vm : Vm) (locals : Locals) : Option (Vm × ℕ × ℕ) := do
  let spMix := (← r vm readReg[(0 : Fin 4)]) ^^^ (← r vm readReg[(1 : Fin 4)])
  let (spAddr0, spAddr1) := spAddresses locals spMix
  let vm ← loadRegisters vm spAddr0.toNat spAddr1.toNat
  return ({ vm with pc := 0 }, spAddr0.toNat, spAddr1.toNat)

/-- The rest of an iteration after its instruction loop. -/
def leaveLoop (readReg : Vector U8 4) (datasetOffset : U64) (locals : Locals) (addr0 addr1 : ℕ)
    (vm : Vm) : Option (Vm × Locals) := do
  let mx := locals.mx ^^^ ((← r vm readReg[(2 : Fin 4)]) ^^^ (← r vm readReg[(3 : Fin 4)]))
  let mx := mx &&& cacheLineAlignMask
  let r ← vm.mem.datasetRead (datasetOffset + locals.ma) vm.r
  let vm ← storeRegisters { vm with r } addr0 addr1
  return (vm, { mx := locals.ma, ma := mx, spAddr0 := 0, spAddr1 := 0 })

variable (rounds : ℕ)

/-- One iteration, with the given rounds for its instruction loop. -/
def iteration (program : CompactProgram) (readReg : Vector U8 4) (datasetOffset : U64)
    (state : Vm × Locals) : Option (Vm × Locals) := do
  let (vm, locals) := state
  let (vm, addr0, addr1) ← enterLoop readReg vm locals
  let vm ← whileLoop inLoop (dispatch ops program) rounds vm
  leaveLoop readReg datasetOffset locals addr0 addr1 vm

/-- The first `count` iterations of a run, from the initialised machine. -/
def iterations (program : CompactProgram) (vm : Vm) (count : ℕ) : Option (Vm × Locals) :=
  (List.range count).foldlM
    (fun state _ => iteration ops rounds program (readRegOffsets vm) vm.datasetOffset state)
    (vm, initLocals vm)

def run (vm : Vm) (seed : Aes.State) : Option Vm := do
  let program ← CompactProgram.fromBytes (Aes.genProgramAes4rx4 seed programBytes)
  let vm := vm.initVm program.entropy
  let (vm, locals) ← iterations ops rounds program vm programIterations
  return { vm with mx := locals.mx, ma := locals.ma }

variable (blake2b : Blake2b)

/-- A program and the seed of the next one. -/
def runAndReseed (state : Vm × Aes.State) : Option (Vm × Aes.State) := do
  let vm ← run ops rounds state.1 state.2
  return (vm, hashToM128iArray (blake2b 64 vm.registerBytes))

/-- The digest and the state the machine is left in. -/
def calculateHashImpl (vm : Vm) (input : List U8) : Option (Vector U8 32 × Vm) := do
  guard (vm.scratchpad.size = scratchpadWords)
  let seed := hashToM128iArray (blake2b 64 input)
  let (vm, nextSeed) ← vm.initScratchpad seed
  let vm := vm.resetRoundingMode
  let (vm, nextSeed) ← (List.range (programCount - 1)).foldlM
    (fun state _ => runAndReseed ops rounds blake2b state) (vm, nextSeed)
  let vm ← run ops rounds vm nextSeed
  let finalHash ← Aes.hashAes1rx4 vm.scratchpad
  let vm := { vm with a := finalHash.map M128d.ofM128i }
  return (blake2b 32 vm.registerBytes, vm)

end

/-! ## The lane arithmetic it selects -/

/-- The operation chosen for a mode: the target's own in mode nearest, a lane of the directed
one of `randomx-softfp` otherwise. -/
def laneOp (native nearest : SoftFp.Nearest) : LaneCall → U64
  | .add mode a b =>
    if mode = .nearest then native.add a b else SoftFp.addInner nearest a b mode
  | .sub mode a b =>
    if mode = .nearest then native.sub a b
    else SoftFp.addInner nearest a (b ^^^ SoftFp.signMask) mode
  | .mul mode a b =>
    if mode = .nearest then native.mul a b else SoftFp.mulInner nearest a b mode
  | .div mode a b =>
    if mode = .nearest then native.div a b else SoftFp.divInner nearest a b mode
  | .sqrt mode a => if mode = .nearest then native.sqrt a else SoftFp.sqrtInner nearest a mode

/-- The lanes of a register, low before high. -/
def lanes (value : M128d) : U64 × U64 := (value.low, value.high)

def fromLanes (value : U64 × U64) : M128d := ⟨value.2, value.1⟩

/-- An operation selected lane by lane is selected for both lanes at once. -/
lemma both_of_select {arith : LaneCall → U64} {call : U64 → U64 → LaneCall}
    {native : U64 → U64 → U64} {mode : SoftFp.RoundingMode}
    {inner : U64 → U64 → SoftFp.RoundingMode → U64}
    (h : ∀ a b, arith (call a b) = if mode = .nearest then native a b else inner a b mode)
    (near : U64 → U64 → U64) (x y : M128d) :
    LaneOps.both (fun call => some (arith call)) call x y
      = some (if mode = .nearest then ⟨native x.high y.high, native x.low y.low⟩
          else fromLanes (SoftFp.lanewise2 near inner (lanes x) (lanes y) mode)) := by
  unfold LaneOps.both SoftFp.lanewise2
  simp only [h]
  split <;> rfl

/-- The handlers use the target's own operations in mode nearest and the two-lane entry points of
`randomx-softfp` otherwise. -/
theorem both_laneOp (native nearest : SoftFp.Nearest) (mode : SoftFp.RoundingMode) (x y : M128d) :
    let ops : LaneOps := fun call => some (laneOp native nearest call)
    let select (own directed : M128d) := some (if mode = .nearest then own else directed)
    ops.both (.add mode) x y = select ⟨native.add x.high y.high, native.add x.low y.low⟩
        (fromLanes (SoftFp.add2 nearest (lanes x) (lanes y) mode)) ∧
      ops.both (.sub mode) x y = select ⟨native.sub x.high y.high, native.sub x.low y.low⟩
        (fromLanes (SoftFp.sub2 nearest (lanes x) (lanes y) mode)) ∧
      ops.both (.mul mode) x y = select ⟨native.mul x.high y.high, native.mul x.low y.low⟩
        (fromLanes (SoftFp.mul2 nearest (lanes x) (lanes y) mode)) ∧
      ops.both (.div mode) x y = select ⟨native.div x.high y.high, native.div x.low y.low⟩
        (fromLanes (SoftFp.div2 nearest (lanes x) (lanes y) mode)) ∧
      ops.bothSqrt mode x = select ⟨native.sqrt x.high, native.sqrt x.low⟩
        (fromLanes (SoftFp.sqrt2 nearest (lanes x) mode)) := by
  refine ⟨both_of_select (fun _ _ => rfl) _ x y, both_of_select (fun _ _ => rfl) _ x y,
    both_of_select (fun _ _ => rfl) _ x y, both_of_select (fun _ _ => rfl) _ x y, ?_⟩
  unfold LaneOps.bothSqrt laneOp SoftFp.sqrt2
  dsimp only
  split <;> rfl

end RandomXSp1.Optimized
