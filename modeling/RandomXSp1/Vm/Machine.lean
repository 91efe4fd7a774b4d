import RandomXSp1.Vm.State

/-!
# The machine both interpreters implement

`Machine` is a `Vm` whose scratchpad is full and whose rounding mode is one of the four, and `Op`
an instruction with its operands resolved: no byte offsets, boxed operands or reserved markers.
Nothing here can fail except a call of the lane arithmetic.
-/

namespace RandomXSp1

open SoftFp (RoundingMode)

/-! ## Machines -/

structure Machine where
  mx : U64
  ma : U64
  r : Vector U64 8
  f : Vector M128d 4
  e : Vector M128d 4
  a : Vector M128d 4
  scratchpad : Vector U64 scratchpadWords
  pc : ℤ
  eMask : Vector U64 2
  readReg : Vector ℕ 4
  mem : SeedMemory
  datasetOffset : U64
  mode : RoundingMode

/-- The encoding of a rounding mode in the state. -/
def fprcOf : RoundingMode → U8
  | .nearest => 0
  | .down => 1
  | .up => 2
  | .towardZero => 3

/-- The rounding mode selected by the two low bits of a word. -/
def modeOf (word : U64) : RoundingMode :=
  if word &&& 3 = 0 then .nearest
  else if word &&& 3 = 1 then .down
  else if word &&& 3 = 2 then .up
  else .towardZero

namespace Machine

def toVm (m : Machine) : Vm where
  mx := m.mx
  ma := m.ma
  r := m.r
  f := m.f
  e := m.e
  a := m.a
  scratchpad := m.scratchpad.toArray
  pc := m.pc
  eMask := m.eMask
  readReg := m.readReg
  mem := m.mem
  datasetOffset := m.datasetOffset
  roundingMode := fprcOf m.mode

lemma exists_fprcOf {fprc : U8} (h : fprc < 4) : ∃ mode, fprcOf mode = fprc := by
  have hcases : ∀ fprc : U8, fprc < 4 → fprc = 0 ∨ fprc = 1 ∨ fprc = 2 ∨ fprc = 3 := by decide
  rcases hcases fprc h with rfl | rfl | rfl | rfl
  · exact ⟨.nearest, rfl⟩
  · exact ⟨.down, rfl⟩
  · exact ⟨.up, rfl⟩
  · exact ⟨.towardZero, rfl⟩

/-- The states that are machines. -/
lemma exists_toVm {vm : Vm} (hsize : vm.scratchpad.size = scratchpadWords)
    (hmode : vm.roundingMode < 4) : ∃ m : Machine, m.toVm = vm := by
  obtain ⟨mode, hmode⟩ := exists_fprcOf hmode
  exact ⟨⟨vm.mx, vm.ma, vm.r, vm.f, vm.e, vm.a, ⟨vm.scratchpad, hsize⟩, vm.pc, vm.eMask, vm.readReg,
    vm.mem, vm.datasetOffset, mode⟩, by rw [toVm, hmode]⟩

@[simp] lemma toVm_scratchpad_size (m : Machine) : m.toVm.scratchpad.size = scratchpadWords :=
  m.scratchpad.size_toArray

lemma toVm_roundingMode_lt (m : Machine) : m.toVm.roundingMode < 4 := by
  show fprcOf m.mode < 4
  cases m.mode <;> decide

def setR (m : Machine) (i : Fin 8) (value : U64) : Machine := { m with r := m.r.setFin i value }
def setF (m : Machine) (i : Fin 4) (value : M128d) : Machine := { m with f := m.f.setFin i value }
def setE (m : Machine) (i : Fin 4) (value : M128d) : Machine := { m with e := m.e.setFin i value }

end Machine

/-! ## Operands -/

/-- The three nested parts of the scratchpad. -/
inductive Level where
  | l1
  | l2
  | l3
  deriving DecidableEq, Repr

def Level.mask : Level → U64
  | l1 => scratchpadL1Mask
  | l2 => scratchpadL2Mask
  | l3 => scratchpadL3Mask

lemma Level.mask_le (level : Level) : level.mask.toNat ≤ 0x1ffff8 := by
  cases level <;> decide

lemma Level.mask_and_seven (level : Level) : level.mask &&& 7 = 0 := by
  cases level <;> decide

/-- A scratchpad operand: a register, if any, plus an offset, within a level. -/
structure Address where
  base : Option (Fin 8)
  offset : U64
  level : Level

namespace Address

/-- The byte offset. -/
def byteOffset (address : Address) (r : Vector U64 8) : U64 :=
  let start := match address.base with
    | some i => r[i] + address.offset
    | none => address.offset
  start &&& address.level.mask

lemma byteOffset_le (address : Address) (r : Vector U64 8) :
    (address.byteOffset r).toNat ≤ 0x1ffff8 := by
  unfold byteOffset
  rw [BitVec.toNat_and]
  exact Nat.and_le_right.trans address.level.mask_le

lemma byteOffset_and_seven (address : Address) (r : Vector U64 8) :
    address.byteOffset r &&& 7 = 0 := by
  unfold byteOffset
  rw [BitVec.and_assoc, address.level.mask_and_seven]
  exact BitVec.and_zero

/-- The word at the byte offset. -/
def word (address : Address) (r : Vector U64 8) : Fin scratchpadWords :=
  ⟨(address.byteOffset r).toNat / 8, by
    have hle := address.byteOffset_le r
    unfold scratchpadWords
    omega⟩

end Address

namespace Machine

def load (m : Machine) (address : Address) : U64 := m.scratchpad[address.word m.r]

def store (m : Machine) (address : Address) (value : U64) : Machine :=
  { m with scratchpad := m.scratchpad.set (address.word m.r) value }

/-- The divisor `exec_fdiv_m` forms. -/
def divisor (m : Machine) (address : Address) : M128d :=
  m.toVm.maskRegisterExponentMantissa (lanesOfWord (m.load address))

end Machine

inductive IntOp where
  | add
  | sub
  | mul
  | mulh
  | smulh
  | xor
  | ror
  | rol
  deriving DecidableEq, Repr

/-- The operator, on the destination and the source; a rotation reads 24 bits of its amount. -/
def IntOp.eval : IntOp → U64 → U64 → U64
  | add => (· + ·)
  | sub => (· - ·)
  | mul => (· * ·)
  | mulh => fun dst src => RandomXSp1.mulh src dst
  | smulh => fun dst src => RandomXSp1.smulh src dst
  | xor => (· ^^^ ·)
  | ror => fun dst src => dst.rotateRight ((src &&& 0xffffff).setWidth 32).toNat
  | rol => fun dst src => dst.rotateLeft ((src &&& 0xffffff).setWidth 32).toNat

inductive Operand where
  | reg (i : Fin 8)
  | imm (value : U64)
  | mem (address : Address)

def Operand.value (m : Machine) : Operand → U64
  | reg i => m.r[i]
  | imm value => value
  | mem address => m.load address

inductive FloatOperand where
  | reg (i : Fin 4)
  | mem (address : Address)

def FloatOperand.value (m : Machine) : FloatOperand → M128d
  | reg i => m.a[i]
  | mem address => lanesOfWord (m.load address)

/-! ## Operations -/

inductive Op where
  | nop
  | int (op : IntOp) (dst : Fin 8) (src : Operand)
  | addShifted (dst src : Fin 8) (shift : U8) (imm : U64)
  | mulRcp (dst : Fin 8) (reciprocal : U64)
  | neg (dst : Fin 8)
  | swap (dst src : Fin 8)
  | swapF (dst : Fin 4)
  | swapE (dst : Fin 4)
  | addF (dst : Fin 4) (src : FloatOperand)
  | subF (dst : Fin 4) (src : FloatOperand)
  | scaleF (dst : Fin 4)
  | mulE (dst src : Fin 4)
  | divE (dst : Fin 4) (src : Address)
  | sqrtE (dst : Fin 4)
  | branch (dst : Fin 8) (imm : U32) (condition : Fin 16) (target : ℤ)
  | round (src : Fin 8) (amount : ℕ)
  | store (dst : Address) (src : Fin 8)

/-- The mask of `exec_fscal_r`. -/
def scaleMask : M128d := ⟨0x80f0000000000000, 0x80f0000000000000⟩

/-- The lowest of the eight bits a branch tests. -/
def branchBit (condition : Fin 16) : ℕ := condition + 8

/-- What a branch adds to its register: the tested bit is set and the one below it cleared. -/
def branchIncrement (imm : U32) (bit : ℕ) : U64 :=
  (u64FromI32Imm imm ||| (1#64 <<< bit)) &&& ~~~(1#64 <<< (bit - 1))

def branchTaken (sum : U64) (bit : ℕ) : Prop := sum &&& (conditionMask <<< bit) = 0

instance (sum : U64) (bit : ℕ) : Decidable (branchTaken sum bit) :=
  inferInstanceAs (Decidable (_ = _))

/-- The effect of an operation; it fails only where the lane arithmetic is undefined. -/
def Op.exec (ops : LaneOps) (m : Machine) : Op → Option Machine
  | nop => some m
  | int op dst src => some (m.setR dst (op.eval m.r[dst] (src.value m)))
  | addShifted dst src shift imm => some (m.setR dst (m.r[dst] + ((m.r[src] <<< shift.toNat) + imm)))
  | mulRcp dst reciprocal =>
    some (if reciprocal ≠ 0 then m.setR dst (m.r[dst] * reciprocal) else m)
  | neg dst => some (m.setR dst (~~~m.r[dst] + 1))
  | swap dst src => some ((m.setR dst m.r[src]).setR src m.r[dst])
  | swapF dst => some (m.setF dst (m.f[dst].shuffle1 m.f[dst]))
  | swapE dst => some (m.setE dst (m.e[dst].shuffle1 m.e[dst]))
  | addF dst src => (ops.both (.add m.mode) m.f[dst] (src.value m)).map (m.setF dst)
  | subF dst src => (ops.both (.sub m.mode) m.f[dst] (src.value m)).map (m.setF dst)
  | scaleF dst => some (m.setF dst (m.f[dst].xor scaleMask))
  | mulE dst src => (ops.both (.mul m.mode) m.e[dst] m.a[src]).map (m.setE dst)
  | divE dst src => (ops.both (.div m.mode) m.e[dst] (m.divisor src)).map (m.setE dst)
  | sqrtE dst => (ops.bothSqrt m.mode m.e[dst]).map (m.setE dst)
  | branch dst imm condition target =>
    let bit := branchBit condition
    let sum := m.r[dst] + branchIncrement imm bit
    let m := m.setR dst sum
    some (if branchTaken sum bit then { m with pc := target } else m)
  | round src amount => some { m with mode := modeOf (m.r[src].rotateRight amount) }
  | store dst src => some (m.store dst m.r[src])

/-! ## What an operation leaves unchanged -/

/-- The integer registers an operation may change. -/
def Op.writes : Op → List (Fin 8)
  | int _ dst _ => [dst]
  | addShifted dst _ _ _ => [dst]
  | mulRcp dst _ => [dst]
  | neg dst => [dst]
  | swap dst src => [dst, src]
  | branch dst _ _ _ => [dst]
  | _ => []

def Op.isBranch : Op → Bool
  | branch .. => true
  | _ => false

/-- The parts of the state that are fixed for a run. -/
structure Machine.SameSetup (m m' : Machine) : Prop where
  a : m'.a = m.a
  eMask : m'.eMask = m.eMask
  readReg : m'.readReg = m.readReg
  mem : m'.mem = m.mem
  datasetOffset : m'.datasetOffset = m.datasetOffset

/-- The parts of the state that no operation changes. -/
structure Machine.SameConfiguration (m m' : Machine) : Prop extends Machine.SameSetup m m' where
  mx : m'.mx = m.mx
  ma : m'.ma = m.ma

lemma Machine.SameSetup.trans {m₁ m₂ m₃ : Machine} (h : m₁.SameSetup m₂) (h' : m₂.SameSetup m₃) :
    m₁.SameSetup m₃ :=
  ⟨h'.a.trans h.a, h'.eMask.trans h.eMask, h'.readReg.trans h.readReg, h'.mem.trans h.mem,
    h'.datasetOffset.trans h.datasetOffset⟩

lemma Machine.SameConfiguration.trans {m₁ m₂ m₃ : Machine} (h : m₁.SameConfiguration m₂)
    (h' : m₂.SameConfiguration m₃) : m₁.SameConfiguration m₃ :=
  ⟨h.toSameSetup.trans h'.toSameSetup, h'.mx.trans h.mx, h'.ma.trans h.ma⟩

section
variable {ops : LaneOps} {op : Op} {m m' : Machine}

lemma Op.sameConfiguration_of_exec (h : op.exec ops m = some m') : m.SameConfiguration m' := by
  cases op
  case addF | subF | mulE | divE | sqrtE =>
    obtain ⟨value, -, rfl⟩ := Option.map_eq_some_iff.mp h
    exact ⟨⟨rfl, rfl, rfl, rfl, rfl⟩, rfl, rfl⟩
  case mulRcp | branch =>
    obtain rfl := Option.some.inj h
    split <;> exact ⟨⟨rfl, rfl, rfl, rfl, rfl⟩, rfl, rfl⟩
  all_goals
    obtain rfl := Option.some.inj h
    exact ⟨⟨rfl, rfl, rfl, rfl, rfl⟩, rfl, rfl⟩

/-- Only a branch changes the counter. -/
lemma Op.pc_of_exec (hbranch : op.isBranch = false) (h : op.exec ops m = some m') :
    m'.pc = m.pc := by
  cases op
  case branch => exact absurd hbranch (by simp [Op.isBranch])
  case addF | subF | mulE | divE | sqrtE =>
    obtain ⟨value, -, rfl⟩ := Option.map_eq_some_iff.mp h
    rfl
  case mulRcp =>
    obtain rfl := Option.some.inj h
    split <;> rfl
  all_goals
    obtain rfl := Option.some.inj h
    rfl

lemma Machine.getElem_setR_of_ne {i j : Fin 8} (h : j ≠ i) (value : U64) :
    (m.setR i value).r[j] = m.r[j] :=
  Vector.getElem_set_ne i.isLt j.isLt (fun hij => h (Fin.ext hij).symm)

@[simp] lemma Machine.getElem_setR_self (i : Fin 8) (value : U64) :
    (m.setR i value).r[i] = value :=
  Vector.getElem_set_self i.isLt

/-- An operation changes only the registers it writes. -/
lemma Op.r_of_exec {j : Fin 8} (hj : j ∉ op.writes) (h : op.exec ops m = some m') :
    m'.r[j] = m.r[j] := by
  cases op
  case int | addShifted | neg =>
    obtain rfl := Option.some.inj h
    exact Machine.getElem_setR_of_ne (by simpa [Op.writes] using hj) _
  case mulRcp =>
    obtain rfl := Option.some.inj h
    split
    · exact Machine.getElem_setR_of_ne (by simpa [Op.writes] using hj) _
    · rfl
  case swap dst src =>
    obtain rfl := Option.some.inj h
    have hne : j ≠ dst ∧ j ≠ src := by simpa [Op.writes] using hj
    rw [Machine.getElem_setR_of_ne hne.2, Machine.getElem_setR_of_ne hne.1]
  case branch =>
    obtain rfl := Option.some.inj h
    have hne := Machine.getElem_setR_of_ne (m := m) (by simpa [Op.writes] using hj)
    split <;> exact hne _
  case addF | subF | mulE | divE | sqrtE =>
    obtain ⟨value, -, rfl⟩ := Option.map_eq_some_iff.mp h
    rfl
  all_goals
    obtain rfl := Option.some.inj h
    rfl

/-- A branch adds its increment, and jumps if the tested bits of the sum are clear. -/
lemma Op.exec_branch_eq_some {dst : Fin 8} {imm : U32} {condition : Fin 16} {target : ℤ}
    (h : (Op.branch dst imm condition target).exec ops m = some m') :
    let sum := m.r[dst] + branchIncrement imm (branchBit condition)
    (branchTaken sum (branchBit condition) ∧ m' = { m.setR dst sum with pc := target })
      ∨ (¬branchTaken sum (branchBit condition) ∧ m' = m.setR dst sum) := by
  dsimp only
  obtain rfl := Option.some.inj h
  by_cases htaken : branchTaken (m.r[dst] + branchIncrement imm (branchBit condition))
      (branchBit condition)
  · exact Or.inl ⟨htaken, if_pos htaken⟩
  · exact Or.inr ⟨htaken, if_neg htaken⟩

end

/-! ## The rounding mode -/

lemma and_three_cases (word : U64) :
    word &&& 3 = 0 ∨ word &&& 3 = 1 ∨ word &&& 3 = 2 ∨ word &&& 3 = 3 := by
  have hle : (word &&& 3).toNat ≤ 3 := by
    rw [BitVec.toNat_and]
    exact Nat.and_le_right
  generalize word &&& 3 = low at hle
  rcases (show low.toNat = 0 ∨ low.toNat = 1 ∨ low.toNat = 2 ∨ low.toNat = 3 by omega)
    with h | h | h | h
  · exact Or.inl (BitVec.eq_of_toNat_eq h)
  · exact Or.inr (Or.inl (BitVec.eq_of_toNat_eq h))
  · exact Or.inr (Or.inr (Or.inl (BitVec.eq_of_toNat_eq h)))
  · exact Or.inr (Or.inr (Or.inr (BitVec.eq_of_toNat_eq h)))

lemma Machine.setRoundingMode_toVm (m : Machine) (word : U64) :
    m.toVm.setRoundingMode ((word &&& 3).setWidth 32)
      = some { m with mode := modeOf word }.toVm := by
  unfold modeOf
  rcases and_three_cases word with h | h | h | h <;> rw [h] <;> rfl

/-! ## Totality -/

/-- With lane arithmetic that is defined everywhere, an operation succeeds. -/
lemma Op.exists_exec (arith : LaneCall → U64) (op : Op) (m : Machine) :
    ∃ m', op.exec (fun call => some (arith call)) m = some m' := by
  cases op <;> exact ⟨_, rfl⟩

end RandomXSp1
