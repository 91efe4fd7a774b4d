import RandomXSp1.Superscalar.Instr

/-!
# Executing superscalar programs

The three execution paths of `superscalar.rs`. `executeReference` interprets the generated
instructions, `executeCompact` the decoded ones, and `executeCompactUnchecked` runs decoded
instructions in pairs through a table of handlers, reading registers at byte offsets without
a check. An index out of range is a panic on the checked paths and undefined behaviour on the
unchecked one; both are `none`.
-/

namespace RandomXSp1.Superscalar

/-- The superscalar register file. -/
abbrev Registers := Vector U64 8

/-- `ds[i]` for an index of type `usize`; `-1 as usize` is out of range too. -/
def readRegister (ds : Registers) (i : ℤ) : Option U64 :=
  if 0 ≤ i then ds[i.toNat]? else none

/-- `ds[i] = value`. -/
def writeRegister (ds : Registers) (i : ℤ) (value : U64) : Option Registers :=
  if h : 0 ≤ i ∧ i.toNat < 8 then some (ds.set i.toNat value h.2) else none

/-! ## Reference execution -/

/-- One iteration of `execute_reference`. `precomputeReciprocal` is the feature flag of that
name. -/
def executeReferenceInstr (precomputeReciprocal : Bool) (instr : ScInstr) (ds : Registers) :
    Option Registers :=
  let dst := instr.dst
  let src := instr.src
  match instr.info.op with
  | .isubR => do writeRegister ds dst ((← readRegister ds dst) - (← readRegister ds src))
  | .ixorR => do writeRegister ds dst ((← readRegister ds dst) ^^^ (← readRegister ds src))
  | .iaddRs => do
    writeRegister ds dst
      ((← readRegister ds dst) + ((← readRegister ds src) <<< instr.modShift))
  | .imulR => do writeRegister ds dst ((← readRegister ds dst) * (← readRegister ds src))
  | .irorC => do
    writeRegister ds dst ((← readRegister ds dst).rotateRight instr.imm32.toNat)
  | .iaddC7 | .iaddC8 | .iaddC9 => do
    writeRegister ds dst ((← readRegister ds dst) + u64FromU32Imm instr.imm32)
  | .ixorC7 | .ixorC8 | .ixorC9 => do
    writeRegister ds dst ((← readRegister ds dst) ^^^ u64FromU32Imm instr.imm32)
  | .imulhR => do writeRegister ds dst (mulh (← readRegister ds dst) (← readRegister ds src))
  | .ismulhR => do writeRegister ds dst (smulh (← readRegister ds dst) (← readRegister ds src))
  | .imulRcp => do
    let value ← readRegister ds dst
    if precomputeReciprocal then writeRegister ds dst (value * instr.reciprocal)
    else writeRegister ds dst (value * (← randomxReciprocal (instr.imm32.setWidth 64)))
  | .count | .invalid => none

def executeReference (precomputeReciprocal : Bool) (prog : List ScInstr) (ds : Registers) :
    Option Registers :=
  prog.foldlM (fun ds instr => executeReferenceInstr precomputeReciprocal instr ds) ds

/-! ## Decoding -/

inductive ScExecOpcode where
  | isubR
  | ixorR
  | iaddRs
  | imulR
  | irorC
  | iaddC
  | ixorC
  | imulhR
  | ismulhR
  | imulRcp
  deriving DecidableEq, Repr

/-- The discriminant. -/
def ScExecOpcode.toNat : ScExecOpcode → ℕ
  | isubR => 0
  | ixorR => 1
  | iaddRs => 2
  | imulR => 3
  | irorC => 4
  | iaddC => 5
  | ixorC => 6
  | imulhR => 7
  | ismulhR => 8
  | imulRcp => 9

structure ScExecInstr where
  immediate : U64
  pairHandlerOffset : U16
  dstOffset : U8
  srcOffset : U8
  opcode : ScExecOpcode
  deriving DecidableEq

/-- The opcode and immediate of a decoded instruction. -/
def ScExecInstr.decodeOpcode (instr : ScInstr) : Option (ScExecOpcode × U64) :=
  match instr.info.op with
  | .isubR => some (.isubR, 0)
  | .ixorR => some (.ixorR, 0)
  | .iaddRs => some (.iaddRs, BitVec.ofNat 64 instr.modShift)
  | .imulR => some (.imulR, 0)
  | .irorC => some (.irorC, instr.imm32.setWidth 64)
  | .iaddC7 | .iaddC8 | .iaddC9 => some (.iaddC, u64FromU32Imm instr.imm32)
  | .ixorC7 | .ixorC8 | .ixorC9 => some (.ixorC, u64FromU32Imm instr.imm32)
  | .imulhR => some (.imulhR, 0)
  | .ismulhR => some (.ismulhR, 0)
  | .imulRcp => some (.imulRcp, instr.reciprocal)
  | .count | .invalid => none

/-- The decoder of the unchecked build, with its two assertions. -/
def ScExecInstr.decode (instr : ScInstr) : Option ScExecInstr := do
  let (opcode, immediate) ← decodeOpcode instr
  guard (0 ≤ instr.dst ∧ instr.dst < 8)
  guard (instr.src = -1 ∨ (0 ≤ instr.src ∧ instr.src < 8))
  return {
    immediate
    pairHandlerOffset := 0
    dstOffset := BitVec.ofInt 8 instr.dst * 8
    srcOffset := if instr.src < 0 then 0 else BitVec.ofInt 8 instr.src * 8
    opcode }

/-- `size_of::<PairHandler>()` on a 64-bit target. -/
def pairHandlerSize : ℕ := 8

/-- The loop of `generate` over `exec.chunks_exact_mut(2)`. -/
def installPairHandlers : List ScExecInstr → List ScExecInstr
  | first :: second :: rest =>
    let pairIndex := first.opcode.toNat * 10 + second.opcode.toNat
    { first with pairHandlerOffset := BitVec.ofNat 16 (pairIndex * pairHandlerSize) } ::
      second :: installPairHandlers rest
  | rest => rest

/-! ## Compact execution -/

def executeCompactInstr (instr : ScExecInstr) (ds : Registers) : Option Registers :=
  let dst : ℤ := instr.dstOffset.toNat / 8
  let src : ℤ := instr.srcOffset.toNat / 8
  match instr.opcode with
  | .isubR => do writeRegister ds dst ((← readRegister ds dst) - (← readRegister ds src))
  | .ixorR => do writeRegister ds dst ((← readRegister ds dst) ^^^ (← readRegister ds src))
  | .iaddRs => do
    writeRegister ds dst
      ((← readRegister ds dst) + ((← readRegister ds src) <<< instr.immediate.toNat))
  | .imulR => do writeRegister ds dst ((← readRegister ds dst) * (← readRegister ds src))
  | .irorC => do
    writeRegister ds dst
      ((← readRegister ds dst).rotateRight (instr.immediate.setWidth 32).toNat)
  | .iaddC => do writeRegister ds dst ((← readRegister ds dst) + instr.immediate)
  | .ixorC => do writeRegister ds dst ((← readRegister ds dst) ^^^ instr.immediate)
  | .imulhR => do writeRegister ds dst (mulh (← readRegister ds dst) (← readRegister ds src))
  | .ismulhR => do writeRegister ds dst (smulh (← readRegister ds dst) (← readRegister ds src))
  | .imulRcp => do writeRegister ds dst ((← readRegister ds dst) * instr.immediate)

def executeCompact (exec : List ScExecInstr) (ds : Registers) : Option Registers :=
  exec.foldlM (fun ds instr => executeCompactInstr instr ds) ds

/-! ## Unchecked execution -/

/-- The access is defined for an aligned offset inside the register file. -/
def execReadRegister (registers : Registers) (byteOffset : U8) : Option U64 :=
  if byteOffset.toNat % 8 = 0 ∧ byteOffset.toNat ≤ 8 * 8 - 8 then
    registers[byteOffset.toNat / 8]?
  else none

def execWriteRegister (registers : Registers) (byteOffset : U8) (value : U64) :
    Option Registers :=
  if h : byteOffset.toNat % 8 = 0 ∧ byteOffset.toNat ≤ 8 * 8 - 8 then
    some (registers.set (byteOffset.toNat / 8) value (by omega))
  else none

/-- `execute_compact_instruction_known` at the constant `opcode`; its fallback arm traps. -/
def executeCompactInstructionKnown (opcode : ℕ) (instr : ScExecInstr) (ds : Registers) :
    Option Registers := do
  let dstValue ← execReadRegister ds instr.dstOffset
  let result ← match opcode with
    | 0 => do pure (dstValue - (← execReadRegister ds instr.srcOffset))
    | 1 => do pure (dstValue ^^^ (← execReadRegister ds instr.srcOffset))
    | 2 => do
      pure (dstValue + ((← execReadRegister ds instr.srcOffset) <<< instr.immediate.toNat))
    | 3 => do pure (dstValue * (← execReadRegister ds instr.srcOffset))
    | 4 => pure (dstValue.rotateRight (instr.immediate.setWidth 32).toNat)
    | 5 => pure (dstValue + instr.immediate)
    | 6 => pure (dstValue ^^^ instr.immediate)
    | 7 => do pure (mulh dstValue (← execReadRegister ds instr.srcOffset))
    | 8 => do pure (smulh dstValue (← execReadRegister ds instr.srcOffset))
    | 9 => pure (dstValue * instr.immediate)
    | _ => none
  execWriteRegister ds instr.dstOffset result

def executeCompactPairKnown (first second : ℕ) (ds : Registers) (a b : ScExecInstr) :
    Option Registers := do
  let ds ← executeCompactInstructionKnown first a ds
  executeCompactInstructionKnown second b ds

/-- The entries of `PAIR_HANDLERS`, each written as its two constants. -/
def pairHandlers : Vector (ℕ × ℕ) 100 := #v[
  (0, 0), (0, 1), (0, 2), (0, 3), (0, 4), (0, 5), (0, 6), (0, 7), (0, 8), (0, 9),
  (1, 0), (1, 1), (1, 2), (1, 3), (1, 4), (1, 5), (1, 6), (1, 7), (1, 8), (1, 9),
  (2, 0), (2, 1), (2, 2), (2, 3), (2, 4), (2, 5), (2, 6), (2, 7), (2, 8), (2, 9),
  (3, 0), (3, 1), (3, 2), (3, 3), (3, 4), (3, 5), (3, 6), (3, 7), (3, 8), (3, 9),
  (4, 0), (4, 1), (4, 2), (4, 3), (4, 4), (4, 5), (4, 6), (4, 7), (4, 8), (4, 9),
  (5, 0), (5, 1), (5, 2), (5, 3), (5, 4), (5, 5), (5, 6), (5, 7), (5, 8), (5, 9),
  (6, 0), (6, 1), (6, 2), (6, 3), (6, 4), (6, 5), (6, 6), (6, 7), (6, 8), (6, 9),
  (7, 0), (7, 1), (7, 2), (7, 3), (7, 4), (7, 5), (7, 6), (7, 7), (7, 8), (7, 9),
  (8, 0), (8, 1), (8, 2), (8, 3), (8, 4), (8, 5), (8, 6), (8, 7), (8, 8), (8, 9),
  (9, 0), (9, 1), (9, 2), (9, 3), (9, 4), (9, 5), (9, 6), (9, 7), (9, 8), (9, 9)]

/-- The handler is fetched at a byte offset into the table, defined for aligned offsets inside
it. -/
def executeCompactPairUnchecked (ds : Registers) (first second : ScExecInstr) :
    Option Registers :=
  let offset := first.pairHandlerOffset.toNat
  if h : offset % pairHandlerSize = 0 ∧ offset ≤ 100 * pairHandlerSize - pairHandlerSize then
    let handler := pairHandlers.get
      ⟨offset / pairHandlerSize, by simp only [pairHandlerSize] at h ⊢; omega⟩
    executeCompactPairKnown handler.1 handler.2 ds first second
  else none

def executeCompactInstructionUnchecked (ds : Registers) (instr : ScExecInstr) :
    Option Registers := do
  let dstValue ← execReadRegister ds instr.dstOffset
  let result ← match instr.opcode with
    | .isubR => do pure (dstValue - (← execReadRegister ds instr.srcOffset))
    | .ixorR => do pure (dstValue ^^^ (← execReadRegister ds instr.srcOffset))
    | .iaddRs => do
      pure (dstValue + ((← execReadRegister ds instr.srcOffset) <<< instr.immediate.toNat))
    | .imulR => do pure (dstValue * (← execReadRegister ds instr.srcOffset))
    | .irorC => pure (dstValue.rotateRight (instr.immediate.setWidth 32).toNat)
    | .iaddC => pure (dstValue + instr.immediate)
    | .ixorC => pure (dstValue ^^^ instr.immediate)
    | .imulhR => do pure (mulh dstValue (← execReadRegister ds instr.srcOffset))
    | .ismulhR => do pure (smulh dstValue (← execReadRegister ds instr.srcOffset))
    | .imulRcp => pure (dstValue * instr.immediate)
  execWriteRegister ds instr.dstOffset result

/-- The pairs of indices a full chunk of 32 instructions is run by. -/
def chunkPairs : List (ℕ × ℕ) :=
  [(0, 1), (2, 3), (4, 5), (6, 7), (8, 9), (10, 11), (12, 13), (14, 15),
    (16, 17), (18, 19), (20, 21), (22, 23), (24, 25), (26, 27), (28, 29), (30, 31)]

def executeChunk (ds : Registers) (chunk : List ScExecInstr) : Option Registers :=
  chunkPairs.foldlM
    (fun ds pair => do executeCompactPairUnchecked ds (← chunk[pair.1]?) (← chunk[pair.2]?)) ds

/-- The loop over `remainder.chunks_exact(2)` and the instruction it leaves. -/
def executeRemainder (ds : Registers) : List ScExecInstr → Option Registers
  | first :: second :: rest => do
    executeRemainder (← executeCompactPairUnchecked ds first second) rest
  | [instr] => executeCompactInstructionUnchecked ds instr
  | [] => some ds

/-- The loop over `exec.chunks_exact(32)`, then the remainder. -/
def executeCompactUnchecked (exec : List ScExecInstr) (ds : Registers) : Option Registers :=
  if 32 ≤ exec.length then do
    executeCompactUnchecked (exec.drop 32) (← executeChunk ds (exec.take 32))
  else executeRemainder ds exec
termination_by exec.length
decreasing_by
  rw [List.length_drop]
  omega

end RandomXSp1.Superscalar
