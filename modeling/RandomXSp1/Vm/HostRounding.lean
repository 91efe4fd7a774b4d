import RandomXSp1.Vm.Reference
import RandomXSp1.Vm.LaneArithmetic

/-!
# The rounding mode of the host

On x86-64 and AArch64 the native operations round as a control register of the thread says, not as
the machine does. `set_rounding_mode` writes both, and `HostRoundingModeGuard` saves the register
around a hash. Here both interpreters run with that register as part of their state.
-/

namespace RandomXSp1

open SoftFp (RoundingMode Nearest)

/-! ## Control registers -/

/-- The mode that a value of `fprc` selects. -/
def modeOfFprc (mode : U32) : RoundingMode :=
  match mode.toNat with
  | 1 => .down
  | 2 => .up
  | 3 => .towardZero
  | _ => .nearest

/-- A floating-point control register: the mode the hardware reads off it, and what
`set_rounding_mode_env` writes to select one. -/
structure ControlRegister where
  width : ℕ
  roundingMode : BitVec width → RoundingMode
  setRoundingModeEnv : U32 → BitVec width → BitVec width
  roundingMode_set : ∀ mode word, roundingMode (setRoundingModeEnv mode word) = modeOfFprc mode

/-- Bits 13 and 14 of MXCSR, the mode first and shifted into place. -/
def mxcsrMode (mode : U32) : U32 :=
  match mode.toNat with
  | 1 => 0x2000
  | 2 => 0x4000
  | 3 => 0x6000
  | _ => 0

/-- Bits 22 and 23 of FPCR: there up and down are the other way round. -/
def armMode (mode : U32) : U64 :=
  match mode.toNat with
  | 1 => 0b10
  | 2 => 0b01
  | 3 => 0b11
  | _ => 0b00

namespace ControlRegister

/-- The field of a register after it is masked out and written. -/
lemma field_of_write {w : ℕ} (word mask field : BitVec w) (shift : ℕ)
    (hmask : ~~~mask >>> shift &&& 3 = 0) :
    ((word &&& ~~~mask) ||| field) >>> shift &&& 3 = field >>> shift &&& 3 := by
  rw [BitVec.ushiftRight_or_distrib, BitVec.ushiftRight_and_distrib]
  ext i hi
  have hbit := congrArg (fun x => x[i]) hmask
  simp only [BitVec.getElem_and, BitVec.getElem_or] at hbit ⊢
  cases hw : (word >>> shift)[i] <;> cases hm : (~~~mask >>> shift)[i] <;> simp_all

def mxcsr : ControlRegister where
  width := 32
  roundingMode word :=
    match (word >>> 13 &&& 3).toNat with
    | 0 => .nearest
    | 1 => .down
    | 2 => .up
    | _ => .towardZero
  setRoundingModeEnv mode word := (word &&& ~~~0x6000) ||| mxcsrMode mode
  roundingMode_set mode word := by
    rw [field_of_write word 0x6000 (mxcsrMode mode) 13 (by decide)]
    match h : mode.toNat with
    | 1 | 2 | 3 => simp [modeOfFprc, mxcsrMode, h]
    | 0 | _ + 4 => simp [modeOfFprc, mxcsrMode, h]

def fpcr : ControlRegister where
  width := 64
  roundingMode word :=
    match (word >>> 22 &&& 3).toNat with
    | 0 => .nearest
    | 1 => .up
    | 2 => .down
    | _ => .towardZero
  setRoundingModeEnv mode word := (word &&& ~~~((0b11 : U64) <<< 22)) ||| (armMode mode <<< 22)
  roundingMode_set mode word := by
    rw [field_of_write word ((0b11 : U64) <<< 22) (armMode mode <<< 22) 22 (by decide)]
    match h : mode.toNat with
    | 1 | 2 | 3 => simp [modeOfFprc, armMode, h]
    | 0 | _ + 4 => simp [modeOfFprc, armMode, h]

end ControlRegister

/-! ## Hosts -/

def LaneCall.mode : LaneCall → RoundingMode
  | add mode _ _ | sub mode _ _ | mul mode _ _ | div mode _ _ | sqrt mode _ => mode

def LaneCall.inMode (mode : RoundingMode) : LaneCall → LaneCall
  | add _ a b => add mode a b
  | sub _ a b => sub mode a b
  | mul _ a b => mul mode a b
  | div _ a b => div mode a b
  | sqrt _ a => sqrt mode a

/-- A native target: its control register, its operations in every mode, and the exception flags
that the instructions up to a state raise in the register. -/
structure Host where
  register : ControlRegister
  native : LaneCall → U64
  raise : Vm → BitVec register.width → BitVec register.width
  roundingMode_raise : ∀ vm word,
    register.roundingMode (raise vm word) = register.roundingMode word

namespace Host

variable (host : Host)

abbrev Word := BitVec host.register.width

/-- What an instruction computes: the register decides on the mode, whatever mode it is meant
for. -/
def hardware (word : host.Word) (call : LaneCall) : U64 :=
  host.native (call.inMode (host.register.roundingMode word))

/-- The register after an instruction that set the mode of the machine, or did not. -/
def after (sets : Bool) (vm : Vm) (word : host.Word) : host.Word :=
  if sets then host.register.setRoundingModeEnv vm.getRoundingMode word else host.raise vm word

end Host

/-! ## The reference interpreter on a host -/

namespace Reference

variable (host : Host)

def Instr.setsMode (instr : Instr) : Bool :=
  match instr.effect with
  | .cfround => true
  | _ => false

def dispatchOn (prog : Program) (state : Vm × host.Word) : Option (Vm × host.Word) := do
  let (vm, word) := state
  let instr ← (if 0 ≤ vm.pc then prog.program[vm.pc.toNat]? else none)
  let vm ← instr.execute vm (host.hardware word)
  return ({ vm with pc := vm.pc + 1 }, host.after instr.setsMode vm word)

variable (rounds : ℕ)

def iterationOn (prog : Program) (state : (Vm × host.Word) × U32 × U32) :
    Option ((Vm × host.Word) × U32 × U32) := do
  let ((vm, word), spAddr0, spAddr1) := state
  let (vm, addr0, addr1) ← enterLoop vm spAddr0 spAddr1
  let (vm, word) ← whileLoop (fun state => inLoop state.1) (dispatchOn host prog) rounds (vm, word)
  let vm ← leaveLoop addr0 addr1 vm
  return ((vm, word), 0, 0)

def runOn (state : Vm × host.Word) (seed : Aes.State) : Option (Vm × host.Word) := do
  let (vm, word) := state
  let prog ← Program.fromBytes (Aes.genProgramAes4rx4 seed programBytes)
  let vm := vm.initVm prog.entropy
  let (state, _) ← (List.range programIterations).foldlM
    (fun state _ => iterationOn host rounds prog state)
    ((vm, word), vm.mx.setWidth 32, vm.ma.setWidth 32)
  return state

variable (blake2b : Blake2b)

def runAndReseedOn (state : (Vm × host.Word) × Aes.State) :
    Option ((Vm × host.Word) × Aes.State) := do
  let (vm, word) ← runOn host rounds state.1 state.2
  return ((vm, word), hashToM128iArray (blake2b 64 vm.registerBytes))

/-- `Vm::calculate_hash` with its guard, which restores the register on the way out. -/
def calculateHashOn (vm : Vm) (word : host.Word) (input : List U8) :
    Option ((Vector U8 32 × Vm) × host.Word) := do
  let hostRoundingMode := word
  let seed := hashToM128iArray (blake2b 64 input)
  let (vm, tmpHash) ← vm.initScratchpad seed
  let vm := vm.resetRoundingMode
  let word := host.register.setRoundingModeEnv 0 word
  let (state, tmpHash) ← (List.range (programCount - 1)).foldlM
    (fun state _ => runAndReseedOn host rounds blake2b state) ((vm, word), tmpHash)
  let (vm, _) ← runOn host rounds state tmpHash
  let finalHash ← Aes.hashAes1rx4 vm.scratchpad
  let vm := { vm with a := finalHash.map M128d.ofM128i }
  return ((blake2b 32 vm.registerBytes, vm), hostRoundingMode)

end Reference

/-! ## The optimized interpreter on a host -/

namespace Optimized

variable (host : Host) (nearest : Nearest)

/-- The operation chosen for a mode: the host's own in mode nearest, as its register rounds. -/
def laneOpOn (word : host.Word) : LaneOps := fun call =>
  some (laneOp (.ofArith (host.hardware word)) nearest call)

def CompactInstr.setsMode (instr : CompactInstr) : Bool :=
  match instr.effect with
  | .cfround => true
  | _ => false

def dispatchOn (program : CompactProgram) (state : Vm × host.Word) : Option (Vm × host.Word) := do
  let (vm, word) := state
  let instr ← (if 0 ≤ vm.pc then program.instructions[vm.pc.toNat]? else none)
  let vm ← instr.run vm (laneOpOn host nearest word)
  return ({ vm with pc := vm.pc + 1 }, host.after instr.setsMode vm word)

variable (rounds : ℕ)

def iterationOn (program : CompactProgram) (readReg : Vector U8 4) (datasetOffset : U64)
    (state : (Vm × host.Word) × Locals) : Option ((Vm × host.Word) × Locals) := do
  let ((vm, word), locals) := state
  let (vm, addr0, addr1) ← enterLoop readReg vm locals
  let (vm, word) ← whileLoop (fun state => inLoop state.1) (dispatchOn host nearest program) rounds
    (vm, word)
  let (vm, locals) ← leaveLoop readReg datasetOffset locals addr0 addr1 vm
  return ((vm, word), locals)

def runOn (state : Vm × host.Word) (seed : Aes.State) : Option (Vm × host.Word) := do
  let (vm, word) := state
  let program ← CompactProgram.fromBytes (Aes.genProgramAes4rx4 seed programBytes)
  let vm := vm.initVm program.entropy
  let ((vm, word), locals) ← (List.range programIterations).foldlM
    (fun state _ => iterationOn host nearest rounds program (readRegOffsets vm) vm.datasetOffset
      state) ((vm, word), initLocals vm)
  return ({ vm with mx := locals.mx, ma := locals.ma }, word)

variable (blake2b : Blake2b)

def runAndReseedOn (state : (Vm × host.Word) × Aes.State) :
    Option ((Vm × host.Word) × Aes.State) := do
  let (vm, word) ← runOn host nearest rounds state.1 state.2
  return ((vm, word), hashToM128iArray (blake2b 64 vm.registerBytes))

/-- `calculate_hash_impl` with its guard. -/
def calculateHashImplOn (vm : Vm) (word : host.Word) (input : List U8) :
    Option ((Vector U8 32 × Vm) × host.Word) := do
  let hostRoundingMode := word
  guard (vm.scratchpad.size = scratchpadWords)
  let seed := hashToM128iArray (blake2b 64 input)
  let (vm, nextSeed) ← vm.initScratchpad seed
  let vm := vm.resetRoundingMode
  let word := host.register.setRoundingModeEnv 0 word
  let (state, nextSeed) ← (List.range (programCount - 1)).foldlM
    (fun state _ => runAndReseedOn host nearest rounds blake2b state) ((vm, word), nextSeed)
  let (vm, _) ← runOn host nearest rounds state nextSeed
  let finalHash ← Aes.hashAes1rx4 vm.scratchpad
  let vm := { vm with a := finalHash.map M128d.ofM128i }
  return ((blake2b 32 vm.registerBytes, vm), hostRoundingMode)

end Optimized

end RandomXSp1
