import RandomXSp1.Vm.State

/-!
# The reference interpreter of `randomx-core`

Instructions with boxed operands and optional immediates, their decoder in `program.rs`, the
effects and the loops of `vm.rs`. An operand of the wrong kind, a missing immediate and an index
out of range are panics, and `none` here. Lane arithmetic is the host's, under the rounding mode
that `set_rounding_mode_env` installed.
-/

namespace RandomXSp1.Reference

open SoftFp (RoundingMode)

/-! ## Instructions -/

/-- The operand of an instruction: a register, a place in a level of the scratchpad, an immediate,
or none. -/
inductive Store where
  | none
  | r (i : ℕ)
  | f (i : ℕ)
  | e (i : ℕ)
  | a (i : ℕ)
  | imm
  | l1 (address : Store)
  | l2 (address : Store)
  | l3 (address : Store)
  deriving DecidableEq, Repr

/-- What the modifier of an instruction was decoded to. -/
inductive Mode where
  | none
  | cond (x : U8)
  | shft (x : U8)
  deriving DecidableEq

/-- The methods of `Vm` an instruction can point to, named after them. -/
inductive Effect where
  | nop
  | iaddRs
  | iaddM
  | isubR
  | isubM
  | imulR
  | imulM
  | imulhR
  | imulhM
  | ismulhR
  | ismulhM
  | imulRcp
  | inegR
  | ixorR
  | ixorM
  | irorR
  | irolR
  | iswapR
  | fswapR
  | faddR
  | faddM
  | fsubR
  | fsubM
  | fscalR
  | fmulR
  | fdivM
  | fsqrtR
  | cbranch
  | cfround
  | istore
  deriving DecidableEq, Repr

/-- An instruction, less what only its display reads. -/
structure Instr where
  src : Store
  dst : Store
  imm : Option U32
  mode : Mode
  target : Option ℤ
  reciprocal : U64
  effect : Effect
  deriving DecidableEq

/-- The source is dropped, so that the immediate counts, if it is the destination. -/
def newInstr (dst src : Store) (imm : U32) (mode : Mode) (effect : Effect) : Instr :=
  if src = dst then
    { dst, src := .none, imm := some imm, mode, target := .none, reciprocal := 0, effect }
  else { dst, src, imm := .none, mode, target := .none, reciprocal := 0, effect }

def newImmInstr (dst : Store) (imm : U32) (mode : Mode) (effect : Effect) : Instr :=
  { dst, src := .none, imm := some imm, mode, target := .none, reciprocal := 0, effect }

/-! ## Operands -/

/-- Fields of a word, modulo the size of the register file. -/
def rReg (dst : ℕ) : Store := .r (dst % 8)
def aReg (dst : ℕ) : Store := .a (dst % 4)
def eReg (dst : ℕ) : Store := .e (dst % 4)
def fReg (dst : ℕ) : Store := .f (dst % 4)

def modMemU8 (modi : U8) : U8 := modi % 4
def modCondU8 (modi : U8) : U8 := modi >>> 4
def modCond (modi : U8) : Mode := .cond (modCondU8 modi)
def modShft (modi : U8) : Mode := .shft ((modi >>> 2) % 4)
def storeL3Condition : U8 := 14

/-- The level that a store goes to. -/
def lCache (dst : ℕ) (modi : U8) : Store :=
  if modCondU8 modi < storeL3Condition then
    if modMemU8 modi = 0 then .l2 (rReg dst) else .l1 (rReg dst)
  else .l3 (rReg dst)

/-- The level that an operand with a register is read from. -/
def l12Cache (src : ℕ) (modi : U8) : Store :=
  if modMemU8 modi = 0 then .l2 (rReg src) else .l1 (rReg src)

/-- An operand whose source is the destination is a fixed offset of the whole scratchpad. -/
def newLcacheInstr (dstReg : Store) (src : ℕ) (imm : U32) (modi : U8) (effect : Effect) : Instr :=
  if rReg src = dstReg then
    { dst := dstReg, src := .l3 .imm, imm := some (imm &&& scratchpadL3Mask.setWidth 32),
      mode := .none, target := .none, reciprocal := 0, effect }
  else
    { dst := dstReg, src := l12Cache src modi, imm := some imm, mode := .none, target := .none,
      reciprocal := 0, effect }

/-! ## Decoding -/

/-- The instruction and the new register usage. -/
def decodeInstruction (bytes : U64) (i : ℤ) (registerUsage : Vector ℤ 8) :
    Option (Instr × Vector ℤ 8) :=
  let op := (bytes &&& 0xff).toNat
  let dst := ((bytes &&& 0xff00) >>> 8).toNat
  let src := ((bytes &&& 0xff0000) >>> 16).toNat
  let modi : U8 := ((bytes &&& 0xff000000) >>> 24).setWidth 8
  let imm : U32 := ((bytes &&& 0xffffffff00000000) >>> 32).setWidth 32
  let written := registerUsage.set (dst % 8) i
  if op < 0x10 then
    let immVal := if rReg dst = .r 5 then some imm else Option.none
    some ({ dst := rReg dst, src := rReg src, imm := immVal, mode := modShft modi,
            target := .none, reciprocal := 0, effect := .iaddRs }, written)
  else if op < 0x17 then some (newLcacheInstr (rReg dst) src imm modi .iaddM, written)
  else if op < 0x27 then some (newInstr (rReg dst) (rReg src) imm .none .isubR, written)
  else if op < 0x2e then some (newLcacheInstr (rReg dst) src imm modi .isubM, written)
  else if op < 0x3e then some (newInstr (rReg dst) (rReg src) imm .none .imulR, written)
  else if op < 0x42 then some (newLcacheInstr (rReg dst) src imm modi .imulM, written)
  else if op < 0x46 then
    some ({ dst := rReg dst, src := rReg src, imm := .none, mode := .none, target := .none,
            reciprocal := 0, effect := .imulhR }, written)
  else if op < 0x47 then some (newLcacheInstr (rReg dst) src imm modi .imulhM, written)
  else if op < 0x4b then
    some ({ dst := rReg dst, src := rReg src, imm := .none, mode := .none, target := .none,
            reciprocal := 0, effect := .ismulhR }, written)
  else if op < 0x4c then some (newLcacheInstr (rReg dst) src imm modi .ismulhM, written)
  else if op < 0x54 then
    let divisor : U64 := imm.setWidth 64
    let instr := newImmInstr (rReg dst) imm .none .imulRcp
    if isZeroOrPowerOf2 divisor then some (instr, registerUsage)
    else do
      let reciprocal ← randomxReciprocal divisor
      return ({ instr with reciprocal }, written)
  else if op < 0x56 then some (newInstr (rReg dst) .none imm .none .inegR, written)
  else if op < 0x65 then some (newInstr (rReg dst) (rReg src) imm .none .ixorR, written)
  else if op < 0x6a then some (newLcacheInstr (rReg dst) src imm modi .ixorM, written)
  else if op < 0x72 then some (newInstr (rReg dst) (rReg src) (imm &&& 63) .none .irorR, written)
  else if op < 0x74 then some (newInstr (rReg dst) (rReg src) (imm &&& 63) .none .irolR, written)
  else if op < 0x78 then
    if src % 8 ≠ dst % 8 then
      some ({ dst := rReg dst, src := rReg src, imm := .none, mode := .none, target := .none,
              reciprocal := 0, effect := .iswapR }, written.set (src % 8) i)
    else some (newInstr .none .none imm .none .nop, registerUsage)
  else if op < 0x7c then
    let dstIx := dst % 8
    if dstIx ≥ 4 then some (newInstr (.e (dstIx % 4)) .none imm .none .fswapR, registerUsage)
    else some (newInstr (.f (dstIx % 4)) .none imm .none .fswapR, registerUsage)
  else if op < 0x8c then some (newInstr (fReg dst) (aReg src) imm .none .faddR, registerUsage)
  else if op < 0x91 then some (newLcacheInstr (fReg dst) src imm modi .faddM, registerUsage)
  else if op < 0xa1 then some (newInstr (fReg dst) (aReg src) imm .none .fsubR, registerUsage)
  else if op < 0xa6 then some (newLcacheInstr (fReg dst) src imm modi .fsubM, registerUsage)
  else if op < 0xac then some (newInstr (fReg dst) .none imm .none .fscalR, registerUsage)
  else if op < 0xcc then some (newInstr (eReg dst) (aReg src) imm .none .fmulR, registerUsage)
  else if op < 0xd0 then some (newLcacheInstr (eReg dst) src imm modi .fdivM, registerUsage)
  else if op < 0xd6 then some (newInstr (eReg dst) .none imm .none .fsqrtR, registerUsage)
  else if op < 0xef then
    let target := registerUsage.get (Fin.ofNat 8 dst)
    some ({ dst := rReg dst, src := .none, imm := some imm, mode := modCond modi,
            target := some target, reciprocal := 0, effect := .cbranch }, Vector.replicate 8 i)
  else if op < 0xf0 then
    some ({ dst := .none, src := rReg src, imm := some (imm &&& 63), mode := .none,
            target := .none, reciprocal := 0, effect := .cfround }, registerUsage)
  else if op < 0x100 then
    some ({ dst := lCache dst modi, src := rReg src, imm := some imm, mode := .none,
            target := .none, reciprocal := 0, effect := .istore }, registerUsage)
  else some (newInstr .none .none imm .none .nop, registerUsage)

/-- A program, less the final register usage. -/
structure Program where
  entropy : Vector U64 16
  program : Array Instr

def decodeInstructions (i : ℤ) (registerUsage : Vector ℤ 8) : List U64 → Option (List Instr)
  | [] => some []
  | bytes :: rest => do
    let (instr, registerUsage) ← decodeInstruction bytes i registerUsage
    return instr :: (← decodeInstructions (i + 1) registerUsage rest)

/-- The subtraction `bytes.len() - 8` panics for fewer than eight entries. -/
def Program.fromBytes (bytes : List U128) : Option Program := do
  guard (8 ≤ bytes.length)
  let program ← decodeInstructions 0 (Vector.replicate 8 (-1)) (instructionWords bytes)
  return { entropy := entropyOf bytes, program := program.toArray }

/-! ## Reading and writing operands -/

section
variable (vm : Vm)

/-- The accessors match the operand; what they do not expect is a panic. -/
def readFloatReg : Store → Option M128d
  | .a i => vm.a[i]?
  | .e i => vm.e[i]?
  | .f i => vm.f[i]?
  | _ => none

/-- `file[i] = value`. -/
def setFile {α : Type} {n : ℕ} (file : Vector α n) (i : ℕ) (value : α) : Option (Vector α n) :=
  if i < n then some (file.setIfInBounds i value) else none

def writeFloatReg (value : M128d) : Store → Option Vm
  | .a i => (setFile vm.a i value).map fun a => { vm with a }
  | .e i => (setFile vm.e i value).map fun e => { vm with e }
  | .f i => (setFile vm.f i value).map fun f => { vm with f }
  | _ => none

def readR : Store → Option U64
  | .r i => vm.r[i]?
  | _ => none

def writeR (value : U64) : Store → Option Vm
  | .r i => (setFile vm.r i value).map fun r => { vm with r }
  | _ => none

def readF : Store → Option M128d
  | .f i => vm.f[i]?
  | _ => none

def writeF (value : M128d) : Store → Option Vm
  | .f i => (setFile vm.f i value).map fun f => { vm with f }
  | _ => none

def readA : Store → Option M128d
  | .a i => vm.a[i]?
  | _ => none

def readE : Store → Option M128d
  | .e i => vm.e[i]?
  | _ => none

def writeE (value : M128d) : Store → Option Vm
  | .e i => (setFile vm.e i value).map fun e => { vm with e }
  | _ => none

variable (instr : Instr)

/-- The immediate, sign-extended, or the register. -/
def immOrR : Option U64 :=
  if instr.src = .none then instr.imm.map fun imm => imm.signExtend 64 else readR vm instr.src

/-- The word index of a scratchpad operand. -/
def scratchpadSrcIx : Option ℕ := do
  let imm := u64FromI32Imm (← instr.imm)
  let addr ← match instr.src with
    | .l1 d => (readR vm d).map fun base => (base + imm) &&& scratchpadL1Mask
    | .l2 d => (readR vm d).map fun base => (base + imm) &&& scratchpadL2Mask
    | .l3 _ => some (imm &&& scratchpadL3Mask)
    | _ => none
  return addr.toNat / 8

/-- The word index that a store writes to. -/
def scratchpadDstIx : Option ℕ := do
  let imm := u64FromI32Imm (← instr.imm)
  let addr ← match instr.dst with
    | .l1 d => (readR vm d).map fun base => (base + imm) &&& scratchpadL1Mask
    | .l2 d => (readR vm d).map fun base => (base + imm) &&& scratchpadL2Mask
    | .l3 d => (readR vm d).map fun base => (base + imm) &&& scratchpadL3Mask
    | _ => none
  return addr.toNat / 8

/-- `self.scratchpad[self.scratchpad_src_ix(instr)]`. -/
def scratchpadSrc : Option U64 := do
  let ix ← scratchpadSrcIx vm instr
  vm.scratchpad[ix]?

def shiftMode : Option U8 :=
  match instr.mode with
  | .shft x => some x
  | _ => none

def condMode : Option U8 :=
  match instr.mode with
  | .cond x => some x
  | _ => none

/-! ## Effects -/

/-- The common shape of the integer effects on `imm_or_r`. -/
def onImmOrR (op : U64 → U64 → U64) : Option Vm := do
  let v ← immOrR vm instr
  writeR vm (op (← readR vm instr.dst) v) instr.dst

/-- The common shape of the integer effects on a source register. -/
def onSource (op : U64 → U64 → U64) : Option Vm := do
  let vSrc ← readR vm instr.src
  writeR vm (op (← readR vm instr.dst) vSrc) instr.dst

/-- The common shape of the integer effects on a scratchpad operand. -/
def onScratchpad (op : U64 → U64 → U64) : Option Vm := do
  let v ← scratchpadSrc vm instr
  writeR vm (op (← readR vm instr.dst) v) instr.dst

/-- The count is cut to 24 bits before the cast. -/
def rotateRight (dst src : U64) : U64 := dst.rotateRight ((src &&& 0xffffff).setWidth 32).toNat
def rotateLeft (dst src : U64) : U64 := dst.rotateLeft ((src &&& 0xffffff).setWidth 32).toNat

/-- The handlers. -/
def nop : Option Vm := some vm

def execIaddM := onScratchpad vm instr (· + ·)
def execIsubM := onScratchpad vm instr (· - ·)
def execImulM := onScratchpad vm instr (· * ·)

/-- The immediate is there for register 5 only. -/
def execIaddRs : Option Vm := do
  let v := (← readR vm instr.src) <<< (← shiftMode instr).toNat
  let v := match instr.imm with
    | some imm => v + u64FromI32Imm imm
    | none => v
  writeR vm ((← readR vm instr.dst) + v) instr.dst

def execIsubR := onImmOrR vm instr (· - ·)
def execImulR := onImmOrR vm instr (· * ·)

/-- With the feature `precompute-reciprocal`, which the crate enables by default. -/
def execImulRcp : Option Vm :=
  if instr.reciprocal ≠ 0 then do
    writeR vm ((← readR vm instr.dst) * instr.reciprocal) instr.dst
  else some vm

def execImulhR := onSource vm instr fun dst src => mulh src dst
def execImulhM := onScratchpad vm instr fun dst src => mulh src dst
def execIsmulhR := onSource vm instr fun dst src => smulh src dst
def execIsmulhM := onScratchpad vm instr fun dst src => smulh src dst

def execInegR : Option Vm := do
  let vDst ← readR vm instr.dst
  writeR vm (~~~vDst + 1) instr.dst

def execIxorR := onImmOrR vm instr (· ^^^ ·)
def execIxorM := onScratchpad vm instr (· ^^^ ·)
def execIrorR := onImmOrR vm instr rotateRight
def execIrolR := onImmOrR vm instr rotateLeft

def execIswapR : Option Vm := do
  let vSrc ← readR vm instr.src
  let vDst ← readR vm instr.dst
  let vm ← writeR vm vSrc instr.dst
  writeR vm vDst instr.src

def execIstore : Option Vm := do
  let ix ← scratchpadDstIx vm instr
  let value ← readR vm instr.src
  if ix < vm.scratchpad.size then
    some { vm with scratchpad := vm.scratchpad.setIfInBounds ix value }
  else none

/-- The two low bits of the rotated register are the mode. -/
def execCfround : Option Vm := do
  let vSrc ← readR vm instr.src
  let mode := (vSrc.rotateRight (← instr.imm).toNat % 4).setWidth 32
  vm.setRoundingMode mode

/-- The handler sets a bit of the immediate and clears the one below it before it adds. -/
def execCbranch : Option Vm := do
  let shift := (← condMode instr).toNat + 8
  let imm := u64FromI32Imm (← instr.imm) ||| (1#64 <<< shift)
  let imm := imm &&& ~~~(1#64 <<< (shift - 1))
  let vDst := (← readR vm instr.dst) + imm
  let vm ← writeR vm vDst instr.dst
  if vDst &&& (conditionMask <<< shift) = 0 then do
    let target ← instr.target
    return { vm with pc := target }
  else some vm

/-- One handler for both files of registers. -/
def execFswapR : Option Vm := do
  let vDst ← readFloatReg vm instr.dst
  writeFloatReg vm (vDst.shuffle1 vDst) instr.dst

def execFscalR : Option Vm := do
  let vDst ← readF vm instr.dst
  let mask : M128d := ⟨0x80f0000000000000, 0x80f0000000000000⟩
  writeF vm (vDst.xor mask) instr.dst

/-- The mode of the host, as `set_rounding_mode_env` selects it. -/
def hostRoundingMode : RoundingMode :=
  match vm.getRoundingMode.toNat with
  | 1 => .down
  | 2 => .up
  | 3 => .towardZero
  | _ => .nearest

variable (host : LaneCall → U64)

/-- A native operator on `m128d`, lane by lane. -/
def native (call : RoundingMode → U64 → U64 → LaneCall) (x y : M128d) : M128d :=
  let mode := hostRoundingMode vm
  ⟨host (call mode x.high y.high), host (call mode x.low y.low)⟩

def nativeSqrt (x : M128d) : M128d :=
  let mode := hostRoundingMode vm
  ⟨host (.sqrt mode x.high), host (.sqrt mode x.low)⟩

def execFaddR : Option Vm := do
  let vSrc ← readA vm instr.src
  let vDst ← readF vm instr.dst
  writeF vm (native vm host .add vSrc vDst) instr.dst

def execFaddM : Option Vm := do
  let vSrc := lanesOfWord (← scratchpadSrc vm instr)
  let vDst ← readF vm instr.dst
  writeF vm (native vm host .add vDst vSrc) instr.dst

def execFsubR : Option Vm := do
  let vSrc ← readA vm instr.src
  let vDst ← readF vm instr.dst
  writeF vm (native vm host .sub vDst vSrc) instr.dst

def execFsubM : Option Vm := do
  let vSrc := lanesOfWord (← scratchpadSrc vm instr)
  let vDst ← readF vm instr.dst
  writeF vm (native vm host .sub vDst vSrc) instr.dst

def execFmulR : Option Vm := do
  let vSrc ← readA vm instr.src
  let vDst ← readE vm instr.dst
  writeE vm (native vm host .mul vSrc vDst) instr.dst

def execFsqrtR : Option Vm := do
  let vDst ← readE vm instr.dst
  writeE vm (nativeSqrt vm host vDst) instr.dst

def execFdivM : Option Vm := do
  let v ← scratchpadSrc vm instr
  let vSrc := vm.maskRegisterExponentMantissa (lanesOfWord v)
  let vDst ← readE vm instr.dst
  writeE vm (native vm host .div vDst vSrc) instr.dst

/-- `Instr::execute`. -/
def Instr.execute : Option Vm :=
  match instr.effect with
  | .nop => nop vm
  | .iaddRs => execIaddRs vm instr
  | .iaddM => execIaddM vm instr
  | .isubR => execIsubR vm instr
  | .isubM => execIsubM vm instr
  | .imulR => execImulR vm instr
  | .imulM => execImulM vm instr
  | .imulhR => execImulhR vm instr
  | .imulhM => execImulhM vm instr
  | .ismulhR => execIsmulhR vm instr
  | .ismulhM => execIsmulhM vm instr
  | .imulRcp => execImulRcp vm instr
  | .inegR => execInegR vm instr
  | .ixorR => execIxorR vm instr
  | .ixorM => execIxorM vm instr
  | .irorR => execIrorR vm instr
  | .irolR => execIrolR vm instr
  | .iswapR => execIswapR vm instr
  | .fswapR => execFswapR vm instr
  | .faddR => execFaddR vm instr host
  | .faddM => execFaddM vm instr host
  | .fsubR => execFsubR vm instr host
  | .fsubM => execFsubM vm instr host
  | .fscalR => execFscalR vm instr
  | .fmulR => execFmulR vm instr host
  | .fdivM => execFdivM vm instr host
  | .fsqrtR => execFsqrtR vm instr host
  | .cbranch => execCbranch vm instr
  | .cfround => execCfround vm instr
  | .istore => execIstore vm instr

end

/-! ## Runs -/

/-- The loops that load the registers of an iteration. -/
def loadRegisters (vm : Vm) (addr0 addr1 : ℕ) : Option Vm := do
  let r ← updateEach (fun i x => (vm.scratchpad[addr0 + i]?).map fun word => x ^^^ word) vm.r
  let f ← updateEach (fun i _ => (vm.scratchpad[addr1 + i]?).map lanesOfWord) vm.f
  let e ← updateEach (fun i _ => (vm.scratchpad[addr1 + i + 4]?).map fun word =>
    vm.maskRegisterExponentMantissa (lanesOfWord word)) vm.e
  return { vm with r, f, e }

/-- `self.scratchpad[ix] = value`. -/
def setScratchpad (scratchpad : Array U64) (ix : ℕ) (value : U64) : Option (Array U64) :=
  if ix < scratchpad.size then some (scratchpad.setIfInBounds ix value) else none

/-- The loops that store the registers of an iteration. -/
def storeRegisters (vm : Vm) (addr0 addr1 : ℕ) : Option Vm := do
  let scratchpad ← (List.finRange 8).foldlM (fun scratchpad (i : Fin 8) =>
    setScratchpad scratchpad (addr1 + i) vm.r[i]) vm.scratchpad
  let f := Vector.zipWith M128d.xor vm.f vm.e
  let scratchpad ← (List.finRange 4).foldlM (fun scratchpad (i : Fin 4) => do
    let ix := addr0 + 2 * i
    let scratchpad ← setScratchpad scratchpad ix f[i].low
    setScratchpad scratchpad (ix + 1) f[i].high) scratchpad
  return { vm with f, scratchpad }

section
variable (host : LaneCall → U64)

def inLoop (vm : Vm) : Bool := vm.pc < programSize

/-- The body of the instruction loop; a negative counter indexes far out of range. -/
def dispatch (prog : Program) (vm : Vm) : Option Vm := do
  let instr ← (if 0 ≤ vm.pc then prog.program[vm.pc.toNat]? else none)
  let vm ← instr.execute vm host
  return { vm with pc := vm.pc + 1 }

/-- `self.reg.r[self.config.read_reg[k]]`. -/
def readConfigured (vm : Vm) (k : Fin 4) : Option U64 := vm.r[vm.readReg[k]]?

/-- An iteration up to its instruction loop, with the two addresses. -/
def enterLoop (vm : Vm) (spAddr0 spAddr1 : U32) : Option (Vm × ℕ × ℕ) := do
  let spMix := (← readConfigured vm 0) ^^^ (← readConfigured vm 1)
  let spAddr0 := ((spAddr0 ^^^ spMix.setWidth 32) &&& scratchpadL3MaskU32) / 8
  let spAddr1 := ((spAddr1 ^^^ (spMix >>> 32).setWidth 32) &&& scratchpadL3MaskU32) / 8
  let vm ← loadRegisters vm spAddr0.toNat spAddr1.toNat
  return ({ vm with pc := 0 }, spAddr0.toNat, spAddr1.toNat)

/-- The rest of an iteration after its instruction loop. -/
def leaveLoop (addr0 addr1 : ℕ) (vm : Vm) : Option Vm := do
  let mx := vm.mx ^^^ ((← readConfigured vm 2) ^^^ (← readConfigured vm 3))
  let mx := mx &&& cacheLineAlignMask
  let r ← vm.mem.datasetRead (vm.datasetOffset + vm.ma) vm.r
  storeRegisters { vm with r, mx := vm.ma, ma := mx } addr0 addr1

variable (rounds : ℕ)

/-- One iteration, on the machine and the two scratchpad addresses. -/
def iteration (prog : Program) (state : Vm × U32 × U32) : Option (Vm × U32 × U32) := do
  let (vm, spAddr0, spAddr1) := state
  let (vm, addr0, addr1) ← enterLoop vm spAddr0 spAddr1
  let vm ← whileLoop inLoop (dispatch host prog) rounds vm
  let vm ← leaveLoop addr0 addr1 vm
  return (vm, 0, 0)

/-- `run`, with the dataset of the memory of the machine. -/
def run (vm : Vm) (seed : Aes.State) : Option Vm := do
  let prog ← Program.fromBytes (Aes.genProgramAes4rx4 seed programBytes)
  let vm := vm.initVm prog.entropy
  let (vm, _) ← (List.range programIterations).foldlM
    (fun state _ => iteration host rounds prog state) (vm, vm.mx.setWidth 32, vm.ma.setWidth 32)
  return vm

variable (blake2b : Blake2b)

/-- A program and the seed of the next one. -/
def runAndReseed (state : Vm × Aes.State) : Option (Vm × Aes.State) := do
  let vm ← run host rounds state.1 state.2
  return (vm, hashToM128iArray (blake2b 64 vm.registerBytes))

/-- `Vm::calculate_hash`: the digest and the state the machine is left in. -/
def calculateHash (vm : Vm) (input : List U8) : Option (Vector U8 32 × Vm) := do
  let seed := hashToM128iArray (blake2b 64 input)
  let (vm, tmpHash) ← vm.initScratchpad seed
  let vm := vm.resetRoundingMode
  let (vm, tmpHash) ← (List.range (programCount - 1)).foldlM
    (fun state _ => runAndReseed host rounds blake2b state) (vm, tmpHash)
  let vm ← run host rounds vm tmpHash
  let finalHash ← Aes.hashAes1rx4 vm.scratchpad
  let vm := { vm with a := finalHash.map M128d.ofM128i }
  return (blake2b 32 vm.registerBytes, vm)

end

end RandomXSp1.Reference
