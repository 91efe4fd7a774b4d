import RandomXSp1.Vm.Reference
import RandomXSp1.Vm.Optimized

/-!
# The differential audit

`differential_audit` of the optimized crate: it steps a reference machine and a compact machine side
by side and compares them after every instruction. A failed assertion is `none`, as is any panic of
one of the interpreters. Both machines run on one host, whose mode is the one they both hold.
-/

namespace RandomXSp1.DifferentialAudit

/-- `assert_vm_state`. -/
def assertVmState (reference compact : Vm) : Option Unit := do
  guard (reference.registerBytes = compact.registerBytes)
  guard (reference.pc = compact.pc)
  guard (reference.mx = compact.mx)
  guard (reference.ma = compact.ma)
  guard (reference.readReg = compact.readReg)
  guard (reference.eMask = compact.eMask)
  guard (reference.datasetOffset = compact.datasetOffset)
  guard (reference.getRoundingMode = compact.getRoundingMode)

/-- `prepare_iteration`: the machine and the two addresses. -/
def prepareIteration (vm : Vm) (spAddr0 spAddr1 : U32) : Option (Vm × U32 × U32) := do
  let spMix := (← Reference.readConfigured vm 0) ^^^ (← Reference.readConfigured vm 1)
  let spAddr0 := ((spAddr0 ^^^ spMix.setWidth 32) &&& scratchpadL3MaskU32) >>> 3
  let spAddr1 := ((spAddr1 ^^^ (spMix >>> 32).setWidth 32) &&& scratchpadL3MaskU32) >>> 3
  let vm ← Reference.loadRegisters vm spAddr0.toNat spAddr1.toNat
  return (vm, spAddr0, spAddr1)

/-- `finish_iteration`. -/
def finishIteration (vm : Vm) (addr0 addr1 : ℕ) : Option Vm := do
  let mx := vm.mx ^^^ ((← Reference.readConfigured vm 2) ^^^ (← Reference.readConfigured vm 3))
  let mx := mx &&& cacheLineAlignMask
  let r ← vm.mem.datasetRead (vm.datasetOffset + vm.ma) vm.r
  Reference.storeRegisters { vm with r, mx := vm.ma, ma := mx } addr0 addr1

section
variable (host : LaneCall → U64) (ops : LaneOps)

/-- The body of the instruction loop. -/
def dispatch (prog : Reference.Program) (program : Optimized.CompactProgram) (vms : Vm × Vm) :
    Option (Vm × Vm) := do
  let (reference, compact) := vms
  guard (reference.pc = compact.pc)
  let pc := reference.pc
  let referenceInstr ← (if 0 ≤ pc then prog.program[pc.toNat]? else none)
  let compactInstr ← (if 0 ≤ pc then program.instructions[pc.toNat]? else none)
  let reference ← referenceInstr.execute reference host
  let compact ← compactInstr.run compact ops
  assertVmState reference compact
  return ({ reference with pc := reference.pc + 1 }, { compact with pc := compact.pc + 1 })

def inLoop (vms : Vm × Vm) : Bool := vms.1.pc < programSize

variable (rounds : ℕ)

/-- Both machines, and the addresses of each. -/
abbrev Pair := (Vm × U32 × U32) × (Vm × U32 × U32)

/-- The body of the loop over the iterations. -/
def iteration (prog : Reference.Program) (program : Optimized.CompactProgram) (pair : Pair) :
    Option Pair := do
  let ((reference, referenceSp0, referenceSp1), (compact, compactSp0, compactSp1)) := pair
  let (reference, referenceSp0, referenceSp1) ←
    prepareIteration reference referenceSp0 referenceSp1
  let (compact, compactSp0, compactSp1) ← prepareIteration compact compactSp0 compactSp1
  assertVmState reference compact
  let (reference, compact) ← whileLoop inLoop (dispatch host ops prog program) rounds
    ({ reference with pc := 0 }, { compact with pc := 0 })
  let reference ← finishIteration reference referenceSp0.toNat referenceSp1.toNat
  let compact ← finishIteration compact compactSp0.toNat compactSp1.toNat
  assertVmState reference compact
  return ((reference, 0, 0), (compact, 0, 0))

/-- `run_differential`. -/
def runDifferential (reference compact : Vm) (seed : Aes.State) : Option (Vm × Vm) := do
  let bytes := Aes.genProgramAes4rx4 seed programBytes
  let prog ← Reference.Program.fromBytes bytes
  let program ← Optimized.CompactProgram.fromBytes bytes
  let reference := reference.initVm prog.entropy
  let compact := compact.initVm program.entropy
  let (reference, compact) ← (List.range programIterations).foldlM
    (fun pair _ => iteration host ops rounds prog program pair)
    ((reference, reference.mx.setWidth 32, reference.ma.setWidth 32),
      (compact, compact.mx.setWidth 32, compact.ma.setWidth 32))
  return (reference.1, compact.1)

variable (blake2b : Blake2b)

/-- The body of the loop over the programs, on both machines and the seed. -/
def programStep (state : Vm × Vm × Aes.State) (programIndex : ℕ) :
    Option (Vm × Vm × Aes.State) := do
  let (reference, compact, nextSeed) := state
  let (reference, compact) ← runDifferential host ops rounds reference compact nextSeed
  guard (reference.registerBytes = compact.registerBytes)
  guard (reference.scratchpad = compact.scratchpad)
  let nextSeed := if programIndex + 1 < programCount then
    hashToM128iArray (blake2b 64 reference.registerBytes) else nextSeed
  return (reference, compact, nextSeed)

/-- `differential_audit`. -/
def differentialAudit (input : List U8) : Option (Vector U8 32) := do
  let reference := Vm.newVm SeedMemory.noMemory
  let compact := Vm.newVm SeedMemory.noMemory
  let seed := hashToM128iArray (blake2b 64 input)
  let (reference, referenceNext) ← reference.initScratchpad seed
  let (compact, compactNext) ← compact.initScratchpad seed
  guard (referenceNext = compactNext)
  guard (reference.scratchpad = compact.scratchpad)
  let reference := reference.resetRoundingMode
  let compact := compact.resetRoundingMode
  let (reference, compact, _) ← (List.range programCount).foldlM
    (programStep host ops rounds blake2b) (reference, compact, referenceNext)
  let finalHash ← Aes.hashAes1rx4 reference.scratchpad
  let reference := { reference with a := finalHash.map M128d.ofM128i }
  let compact := { compact with a := finalHash.map M128d.ofM128i }
  guard (reference.registerBytes = compact.registerBytes)
  return blake2b 32 reference.registerBytes

end

end RandomXSp1.DifferentialAudit
