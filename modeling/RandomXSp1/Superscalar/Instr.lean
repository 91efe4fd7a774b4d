import RandomXSp1.Common

/-!
# Superscalar instructions

The tables of `superscalar.rs`: opcodes, execution ports, macro operations, and for each
opcode the macro operations it issues and the ones that read its source, write its
destination and yield its result.
-/

namespace RandomXSp1.Superscalar

/-- `ScOpcode`, with `INVALID` for an instruction that is not yet chosen. -/
inductive ScOpcode where
  | invalid
  | isubR
  | ixorR
  | iaddRs
  | imulR
  | irorC
  | iaddC7
  | ixorC7
  | iaddC8
  | ixorC8
  | iaddC9
  | ixorC9
  | imulhR
  | ismulhR
  | imulRcp
  | count
  deriving DecidableEq, Repr

/-- The opcodes that multiply. -/
def ScOpcode.isMultiplication (op : ScOpcode) : Bool :=
  op == .imulR || op == .imulhR || op == .ismulhR || op == .imulRcp

/-! ## Macro operations -/

/-- The ports of the modelled core, and the sets of them that a micro-operation can go to. -/
inductive ExecutionPort where
  | null
  | p0
  | p1
  | p5
  | p01
  | p05
  | p015
  deriving DecidableEq, Repr

/-- The discriminant: one bit for each port. -/
def ExecutionPort.toNat : ExecutionPort → ℕ
  | null => 0
  | p0 => 1
  | p1 => 2
  | p5 => 4
  | p01 => 1 ||| 2
  | p05 => 1 ||| 4
  | p015 => 1 ||| 2 ||| 4

/-- The two sets share a port. -/
def ExecutionPort.is (port check : ExecutionPort) : Bool := port.toNat &&& check.toNat != 0

/-- A macro operation, less its name. -/
structure ScMacroOp where
  size : ℕ
  latency : ℕ
  uop1 : ExecutionPort
  uop2 : ExecutionPort
  dependent : Bool
  deriving DecidableEq, Repr

namespace ScMacroOp

/-- A macro operation that does not wait for the one before it. -/
def new (size latency : ℕ) (uop1 uop2 : ExecutionPort) : ScMacroOp :=
  { size, latency, uop1, uop2, dependent := false }

/-- One that does. -/
def newDep (size latency : ℕ) (uop1 uop2 : ExecutionPort) : ScMacroOp :=
  { size, latency, uop1, uop2, dependent := true }

/-- It needs no port at all. -/
def isEliminated (mop : ScMacroOp) : Bool := mop.uop1 == .null

/-- It is a single micro-operation. -/
def isSimple (mop : ScMacroOp) : Bool := mop.uop2 == .null

end ScMacroOp

/-- The macro operations of the generator, with their sizes in bytes and their latencies. -/
def mopSubRr := ScMacroOp.new 3 1 .p015 .null
def mopXorRr := ScMacroOp.new 3 1 .p015 .null
def mopImulR := ScMacroOp.new 3 4 .p1 .p5
def mopMulR := ScMacroOp.new 3 4 .p1 .p5

/-- `MOV_RR` is eliminated. -/
def mopMovRr := ScMacroOp.new 3 1 .null .null
def mopLeaSib := ScMacroOp.new 4 1 .p01 .null

/-- The dependent `IMUL_RR` of a reciprocal multiply. -/
def mopImulRrDep := ScMacroOp.newDep 4 3 .p1 .null
def mopRorRi := ScMacroOp.new 4 1 .p05 .null
def mopAddRi := ScMacroOp.new 7 1 .p015 .null
def mopXorRi := ScMacroOp.new 7 1 .p015 .null
def mopMovRi64 := ScMacroOp.new 10 1 .p015 .null
def mopImulRr := ScMacroOp.new 4 3 .p1 .null

/-! ## Instruction descriptions -/

/-- An opcode with the macro operations it issues, and which of them read its source, write its
destination and yield its result; `-1` stands for none. -/
structure ScInstrInfo where
  op : ScOpcode
  macroOps : List ScMacroOp
  resultOp : ℕ
  srcOp : ℤ
  dstOp : ℤ
  deriving DecidableEq, Repr

namespace ScInstrInfo

/-- As in the source, the destination comes before the source here. -/
def new (op : ScOpcode) (macroOps : List ScMacroOp) (resultOp : ℕ) (dstOp srcOp : ℤ) :
    ScInstrInfo :=
  { op, macroOps, resultOp, srcOp, dstOp }

/-- The number of macro operations. -/
def size (info : ScInstrInfo) : ℕ := info.macroOps.length

/-- The indexing panics past the last macro operation. -/
def macroOp (info : ScInstrInfo) (i : ℕ) : Option ScMacroOp := info.macroOps[i]?

end ScInstrInfo

/-- The description of an instruction that is not yet chosen. -/
def nop := ScInstrInfo.new .invalid [] 0 0 0

/-- The descriptions of the opcodes, in the order of the source. -/
def isubR := ScInstrInfo.new .isubR [mopSubRr] 0 0 0
def ixorR := ScInstrInfo.new .ixorR [mopXorRr] 0 0 0
def iaddRs := ScInstrInfo.new .iaddRs [mopLeaSib] 0 0 0
def imulR := ScInstrInfo.new .imulR [mopImulRr] 0 0 0
def irorC := ScInstrInfo.new .irorC [mopRorRi] 0 0 (-1)
def iaddC7 := ScInstrInfo.new .iaddC7 [mopAddRi] 0 0 (-1)
def ixorC7 := ScInstrInfo.new .ixorC7 [mopXorRi] 0 0 (-1)
def iaddC8 := ScInstrInfo.new .iaddC8 [mopAddRi] 0 0 (-1)
def ixorC8 := ScInstrInfo.new .ixorC8 [mopXorRi] 0 0 (-1)
def iaddC9 := ScInstrInfo.new .iaddC9 [mopAddRi] 0 0 (-1)
def ixorC9 := ScInstrInfo.new .ixorC9 [mopXorRi] 0 0 (-1)

/-- The wide products read the destination first and the source second, and the product is what they
yield. -/
def imulhR := ScInstrInfo.new .imulhR [mopMovRr, mopMulR, mopMovRr] 1 0 1
def ismulhR := ScInstrInfo.new .ismulhR [mopMovRr, mopImulR, mopMovRr] 1 0 1

/-- A reciprocal multiply has no source register: it loads its constant first. -/
def imulRcp := ScInstrInfo.new .imulRcp [mopMovRi64, mopImulRrDep] 1 1 (-1)

/-! ## Instructions -/

/-- An instruction under construction or finished; `-1` stands for no register. -/
structure ScInstr where
  info : ScInstrInfo
  dst : ℤ
  src : ℤ
  modV : U8
  imm32 : U32
  /-- Precomputed 64-bit reciprocal for `IMUL_RCP`, or zero otherwise. -/
  reciprocal : U64
  opGroup : ScOpcode
  opGroupPar : ℤ
  canReuse : Bool
  groupParIsSource : Bool
  deriving DecidableEq

namespace ScInstr

/-- The instruction before the first one. -/
def null : ScInstr where
  info := nop
  dst := -1
  src := -1
  modV := 0
  imm32 := 0
  reciprocal := 0
  opGroup := .invalid
  canReuse := false
  groupParIsSource := false
  opGroupPar := -1

/-- The shift of `IADD_RS`. -/
def modShift (instr : ScInstr) : ℕ := ((instr.modV >>> 2) % 4).toNat

lemma modShift_lt (instr : ScInstr) : instr.modShift < 4 := by
  rw [modShift, BitVec.toNat_umod]
  exact Nat.mod_lt _ (by decide)

end ScInstr

end RandomXSp1.Superscalar
