import RandomXSp1.Vm.Decode
import RandomXSp1.Vm.Optimized

/-!
# The optimized interpreter refines the machine

Every byte offset that decoding produces is one of a register, or the reserved marker where no
effect reads it, and every effect then does to the state what its operation does to the machine.
No access that an effect makes leaves its buffer.
-/

namespace RandomXSp1.Optimized

open SoftFp (RoundingMode)

/-! ## Register accesses -/

/-- The byte offsets of the registers. -/
def intOffset (i : Fin 8) : U8 := registerByteOffset (regU8 i) intStride
def floatOffset (i : Fin 4) : U8 := registerByteOffset (regU8 i) floatStride

/-- Integer registers lie eight bytes apart, and two-lane registers sixteen. -/
lemma toNat_intOffset : ∀ i : Fin 8, (intOffset i).toNat = i * 8 := by decide
lemma toNat_floatOffset : ∀ i : Fin 4, (floatOffset i).toNat = i * 16 := by decide

/-- No register is taken for the marker of a missing one. -/
lemma intOffset_ne_noReg : ∀ i : Fin 8, intOffset i ≠ noReg := by decide

section
variable {α : Type} {n stride : ℕ} {offset : U8} {i : Fin n}

/-- At the offset of a register the unchecked read finds that register. -/
lemma readFile_eq (hstride : 0 < stride) (h : offset.toNat = i * stride) (file : Vector α n) :
    readFile stride file offset = some file[i] := by
  have hlt : (i : ℕ) * stride < n * stride := Nat.mul_lt_mul_of_pos_right i.isLt hstride
  unfold readFile
  rw [h, if_pos ⟨Nat.mul_mod_left _ _, hlt⟩, Nat.mul_div_cancel _ hstride]
  exact Vector.getElem?_eq_getElem i.isLt

/-- At the offset of a register the unchecked write changes that register alone. -/
lemma writeFile_eq (hstride : 0 < stride) (h : offset.toNat = i * stride) (file : Vector α n)
    (value : α) : writeFile stride file offset value = some (file.set i value) := by
  have hlt : (i : ℕ) * stride < n * stride := Nat.mul_lt_mul_of_pos_right i.isLt hstride
  unfold writeFile
  rw [h, if_pos ⟨Nat.mul_mod_left _ _, hlt⟩, Nat.mul_div_cancel _ hstride]
  apply congrArg some
  ext k hk
  simp [Vector.getElem_set, Vector.getElem_setIfInBounds]

end

section
variable (m : Machine)

@[simp] lemma r_toVm (i : Fin 8) : r m.toVm (intOffset i) = some m.r[i] :=
  readFile_eq (by decide) (toNat_intOffset i) m.r

@[simp] lemma setR_toVm (i : Fin 8) (value : U64) :
    setR m.toVm (intOffset i) value = some (m.setR i value).toVm := by
  unfold setR
  rw [writeFile_eq (by decide) (toNat_intOffset i)]
  rfl

@[simp] lemma f_toVm (i : Fin 4) : f m.toVm (floatOffset i) = some m.f[i] :=
  readFile_eq (by decide) (toNat_floatOffset i) m.f

@[simp] lemma setF_toVm (i : Fin 4) (value : M128d) :
    setF m.toVm (floatOffset i) value = some (m.setF i value).toVm := by
  unfold setF
  rw [writeFile_eq (by decide) (toNat_floatOffset i)]
  rfl

@[simp] lemma e_toVm (i : Fin 4) : e m.toVm (floatOffset i) = some m.e[i] :=
  readFile_eq (by decide) (toNat_floatOffset i) m.e

@[simp] lemma setE_toVm (i : Fin 4) (value : M128d) :
    setE m.toVm (floatOffset i) value = some (m.setE i value).toVm := by
  unfold setE
  rw [writeFile_eq (by decide) (toNat_floatOffset i)]
  rfl

@[simp] lemma a_toVm (i : Fin 4) : a m.toVm (floatOffset i) = some m.a[i] :=
  readFile_eq (by decide) (toNat_floatOffset i) m.a

/-! ## The rounding mode -/

/-- The transmuted mode is one of the four, so the `unsafe` conversion is defined. -/
@[simp] lemma roundingMode_toVm : roundingMode m.toVm = some m.mode := by
  show fromValidFprc ((fprcOf m.mode).setWidth 32) = some m.mode
  cases m.mode <;> rfl

/-! ## Scratchpad accesses -/

/-- A masked offset is within the scratchpad and divisible by eight, whatever the registers hold. -/
lemma offsetAllowed_toVm (address : Address) :
    offsetAllowed m.toVm.scratchpad (address.byteOffset m.r) = true := by
  have hle := address.byteOffset_le m.r
  unfold offsetAllowed
  rw [address.byteOffset_and_seven, m.toVm_scratchpad_size]
  unfold scratchpadWords
  simp only [decide_true, Bool.true_and, decide_eq_true_eq]
  omega

/-- The unchecked load reads the word at the address. -/
@[simp] lemma scratchAtOffset_toVm (address : Address) :
    scratchAtOffset m.toVm (address.byteOffset m.r) = some (m.load address) := by
  unfold scratchAtOffset
  rw [if_pos (offsetAllowed_toVm m address)]
  show m.scratchpad.toArray[(address.word m.r : ℕ)]? = some m.scratchpad[address.word m.r]
  rw [Vector.getElem?_toArray]
  exact Vector.getElem?_eq_getElem (address.word m.r).isLt

/-- The unchecked store writes the word at the address. -/
@[simp] lemma setScratchAtOffset_toVm (address : Address) (value : U64) :
    setScratchAtOffset m.toVm (address.byteOffset m.r) value
      = some (m.store address value).toVm := by
  have hset : (m.scratchpad.toArray).setIfInBounds ((address.byteOffset m.r).toNat / 8) value
      = (m.store address value).scratchpad.toArray := by
    have hword : (address.byteOffset m.r).toNat / 8 = (address.word m.r : ℕ) := rfl
    rw [hword, Machine.store]
    simp [Vector.toArray_set, Array.setIfInBounds]
  unfold setScratchAtOffset
  rw [if_pos (offsetAllowed_toVm m address)]
  apply congrArg some
  unfold Machine.toVm
  rw [hset]
  rfl

end

/-! ## Effects -/

/-- Running the instruction does to a machine what the operation does. -/
def CompactInstr.Implements (instr : CompactInstr) (op : Op) : Prop :=
  ∀ (m : Machine) (ops : LaneOps), instr.run m.toVm ops = (op.exec ops m).map Machine.toVm

/-- The scratchpad operand of the instruction is the one at the address. -/
def CompactInstr.Sources (instr : CompactInstr) (address : Address) : Prop :=
  ∀ m : Machine, scratchpadSrcOffset m.toVm instr = some (address.byteOffset m.r)

/-- An effect that ends with the result of a lane operation. -/
@[simp] lemma bind_some_toVm (result : Option M128d) (update : M128d → Machine) :
    (result.bind fun value => some (update value).toVm) = result.map (Machine.toVm ∘ update) := by
  cases result <;> rfl

section
variable {m : Machine} {instr : CompactInstr} {dst src : Fin 8} {address : Address}

/-- A handler that combines two registers. -/
lemma onRegisters_toVm (hdst : instr.dst = intOffset dst) (hsrc : instr.src = intOffset src)
    (op : U64 → U64 → U64) :
    onRegisters m.toVm instr op = some (m.setR dst (op m.r[dst] m.r[src])).toVm := by
  simp [onRegisters, hdst, hsrc]

/-- A handler that combines a register and the immediate. -/
lemma onImmediate_toVm (hdst : instr.dst = intOffset dst) (op : U64 → U64 → U64) :
    onImmediate m.toVm instr op = some (m.setR dst (op m.r[dst] instr.imm)).toVm := by
  simp [onImmediate, hdst]

/-- A handler that combines a register and a word of the scratchpad. -/
lemma onMemory_toVm (hdst : instr.dst = intOffset dst) (hsrc : instr.Sources address)
    (op : U64 → U64 → U64) :
    onMemory m.toVm instr op = some (m.setR dst (op m.r[dst] (m.load address))).toVm := by
  simp [onMemory, hdst, hsrc m]

/-- A rotation amount below 64 is read in full by the 24-bit mask. -/
lemma rotateAmount_eq {imm : U64} (h : imm.toNat < 64) :
    ((imm &&& 0xffffff).setWidth 32).toNat = (imm.setWidth 32).toNat := by
  have hmask : (0xffffff : U64).toNat = 2 ^ 24 - 1 := rfl
  rw [BitVec.toNat_setWidth, BitVec.toNat_setWidth, BitVec.toNat_and, hmask,
    Nat.and_two_pow_sub_one_eq_mod]
  omega

/-- A rotation amount of the decoder is below 64, so `rotate_right` and its 24-bit mask do nothing
else to it. -/
lemma toNat_u64FromI32Imm_and_63 (imm : U32) : (u64FromI32Imm (imm &&& 63)).toNat < 64 := by
  have hle : (imm &&& 63).toNat ≤ 63 := by
    rw [BitVec.toNat_and]
    exact Nat.and_le_right
  unfold u64FromI32Imm
  rw [if_neg, BitVec.toNat_setWidth]
  · omega
  · rw [BitVec.lt_def]
    unfold int32Max
    simp only [BitVec.toNat_ofNat]
    omega

end

/-! ## Decoding -/

lemma regU8_inj : ∀ i j : Fin 8, regU8 i = regU8 j ↔ i = j := by decide
lemma regU8_eq_five : ∀ i : Fin 8, regU8 i = 5 ↔ i = 5 := by decide
lemma four_le_regU8 : ∀ i : Fin 8, regU8 i ≥ 4 ↔ 4 ≤ i := by decide

/-- The decoder takes a two-lane register from the two low bits of the field. -/
lemma regU8_mod_four (n : ℕ) : regU8 (Fin.ofNat 8 n) % 4 = regU8 (Fin.ofNat 4 n) := by
  have hfin : ∀ i : Fin 8, regU8 i % 4 = regU8 (Fin.ofNat 4 i) := by decide
  rw [hfin]
  apply congrArg regU8
  apply Fin.ext
  show n % 8 % 4 = n % 4
  omega

/-- The mode that selects the mask of a level. -/
def levelMode : Level → U8
  | .l1 => memL1
  | .l2 => memL2
  | .l3 => memL3

/-- The constructor finds the mask of the level; no mode of a decoder is unreachable. -/
lemma newMemory_levelMode (effect : Effect) (dst src : U8) (imm : U64) (level : Level) :
    CompactInstr.newMemory effect dst src imm (levelMode level)
      = some { CompactInstr.new effect dst src imm (levelMode level) with
          memoryMask := level.mask.setWidth 32 } := by
  cases level <;> rfl

section
variable {instr : CompactInstr} {level : Level}

/-- The assertion on the mask holds. -/
lemma guard_levelMask (level : Level) :
    (guard ((level.mask.setWidth 32 : U32) ≠ 0) : Option Unit) = some () := by
  cases level <;> rfl

/-- Masks fit 32 bits. -/
lemma setWidth_levelMask (level : Level) :
    (level.mask.setWidth 32 : U32).setWidth 64 = level.mask := by
  cases level <;> decide

/-- A source with a register adds the immediate to it, within the level. -/
lemma sources_register {src : Fin 8} (hsrc : instr.src = intOffset src)
    (hmask : instr.memoryMask = level.mask.setWidth 32) :
    instr.Sources ⟨some src, instr.imm, level⟩ := by
  intro m
  unfold scratchpadSrcOffset
  rw [hmask, hsrc, if_neg (intOffset_ne_noReg src), r_toVm, setWidth_levelMask, guard_levelMask]
  rfl

/-- A source without a register is a fixed offset, which was masked when it was decoded. -/
lemma sources_offset {offset : U64} (hsrc : instr.src = noReg)
    (himm : instr.imm = offset &&& level.mask)
    (hmask : instr.memoryMask = level.mask.setWidth 32) :
    instr.Sources ⟨none, offset, level⟩ := by
  intro m
  unfold scratchpadSrcOffset
  rw [hmask, hsrc, if_pos rfl, himm, setWidth_levelMask, guard_levelMask]
  show some (offset &&& level.mask &&& level.mask) = some (offset &&& level.mask)
  rw [BitVec.and_assoc, BitVec.and_self]

end

/-- A memory operand with a register keeps that register and its level. -/
lemma decodeMemory_register (effect : Effect) (dst : U8) (src : Fin 8) (imm32 : U32)
    (modifier : U8) :
    ∃ instr, decodeMemory effect dst (regU8 src) imm32 modifier false = some instr ∧
      instr.effect = effect ∧ instr.dst = registerByteOffset dst intStride ∧
        instr.Sources (registerAddress src imm32 modifier) := by
  have hmode : (if modifier &&& 3 = 0 then memL2 else memL1) = levelMode (levelOf modifier) := by
    unfold levelOf
    split <;> rfl
  unfold decodeMemory
  rw [if_neg Bool.false_ne_true]
  dsimp only
  rw [hmode, newMemory_levelMode]
  exact ⟨_, rfl, rfl, rfl, sources_register rfl rfl⟩

/-- The operand of an integer instruction is a fixed offset if its source is its destination. -/
lemma decodeMemory_eq (effect : Effect) (dst src : Fin 8) (imm32 : U32) (modifier : U8) :
    ∃ instr, decodeMemory effect (regU8 dst) (regU8 src) imm32 modifier (regU8 dst == regU8 src)
        = some instr ∧
      instr.effect = effect ∧ instr.dst = intOffset dst ∧
        instr.Sources (memoryOperand dst src imm32 modifier) := by
  unfold memoryOperand
  by_cases h : dst = src
  · have hbeq : (regU8 dst == regU8 src) = true := beq_iff_eq.mpr ((regU8_inj dst src).mpr h)
    rw [hbeq, if_pos h]
    unfold decodeMemory
    rw [if_pos rfl, show memL3 = levelMode .l3 from rfl, newMemory_levelMode]
    exact ⟨_, rfl, rfl, rfl, sources_offset rfl rfl rfl⟩
  · have hbeq : (regU8 dst == regU8 src) = false :=
      beq_eq_false_iff_ne.mpr (fun heq => h ((regU8_inj dst src).mp heq))
    rw [hbeq, if_neg h]
    exact decodeMemory_register effect (regU8 dst) src imm32 modifier

/-- The operand of a floating-point instruction always has a register. -/
lemma decodeFloatMemory_eq (effect : Effect) (dst : Fin 4) (src : Fin 8) (imm32 : U32)
    (modifier : U8) :
    ∃ instr, decodeFloatMemory effect (regU8 dst) (regU8 src) imm32 modifier false = some instr ∧
      instr.effect = effect ∧ instr.dst = floatOffset dst ∧
        instr.Sources (registerAddress src imm32 modifier) := by
  obtain ⟨instr, hdecode, heffect, -, hsources⟩ :=
    decodeMemory_register effect (regU8 dst) src imm32 modifier
  unfold decodeFloatMemory
  rw [hdecode]
  exact ⟨_, rfl, heffect, rfl, hsources⟩

/-- The instruction is a branch exactly if the operation is one, of the same register and with
the same target. -/
def CompactInstr.Jumps (instr : CompactInstr) : Op → Prop
  | .branch dst _ _ target =>
    instr.effect = .cbranch ∧ instr.dst = intOffset dst ∧ instr.target = target
  | _ => instr.effect ≠ .cbranch

/-- Only branches are decoded to a branch, with its register and target. -/
lemma CompactInstr.Jumps.eq_branch {instr : CompactInstr} {op : Op} (h : instr.Jumps op)
    (heffect : instr.effect = .cbranch) :
    ∃ dst imm condition, op = .branch dst imm condition instr.target ∧ instr.dst = intOffset dst := by
  cases op
  case branch dst imm condition target => exact ⟨dst, imm, condition, by rw [h.2.2], h.2.1⟩
  all_goals exact absurd heffect h

/-- What is dispatched as a branch is one. -/
lemma CompactInstr.Jumps.isBranch {instr : CompactInstr} {op : Op} (h : instr.Jumps op)
    (heffect : instr.effect = .cbranch) : op.isBranch = true := by
  obtain ⟨dst, imm, condition, rfl, -⟩ := h.eq_branch heffect
  rfl

/-- What a decoded instruction is to its operation. -/
def CompactInstr.Encodes (instr : CompactInstr) (op : Op) : Prop :=
  instr.Implements op ∧ instr.Jumps op

/-- The decoder yields an instruction that encodes the operation, and its usage. -/
def Decodes (index : ℤ) (usage : Vector ℤ 8) (result : Option (CompactInstr × Vector ℤ 8))
    (op : Op) : Prop :=
  ∃ instr, result = some (instr, op.marks index usage) ∧ instr.Encodes op

section
variable {index : ℤ} {usage : Vector ℤ 8}

/-- Both decoders test the same opcodes. -/
lemma Decodes.ite {c : Prop} [Decidable c] {x y : Option (CompactInstr × Vector ℤ 8)} {op op' : Op}
    (hx : c → Decodes index usage x op) (hy : ¬c → Decodes index usage y op') :
    Decodes index usage (if c then x else y) (if c then op else op') := by
  by_cases h : c
  · rw [if_pos h, if_pos h]
    exact hx h
  · rw [if_neg h, if_neg h]
    exact hy h

variable {dst src : Fin 8} {dstF srcF : Fin 4} {imm32 : U32} {modifier : U8} {effect : Effect}
  {op : IntOp}

/-- The arms whose handler combines two registers. -/
lemma decodes_registers (hne : effect ≠ .cbranch)
    (heffect : ∀ vm ops instr, instr.effect = effect →
      instr.run vm ops = onRegisters vm instr op.eval) :
    Decodes index usage
      (some (CompactInstr.new effect (regU8 dst) (regU8 src) 0 0, usage.setFin dst index))
      (.int op dst (.reg src)) := by
  refine ⟨_, rfl, ?_, hne⟩
  intro m ops
  rw [heffect _ _ _ rfl, onRegisters_toVm rfl rfl]
  rfl

/-- The arms that decode to the immediate variant if source and destination are the same
register. -/
lemma decodes_regOrImm {immediateEffect : Effect} (hne : effect ≠ .cbranch)
    (hne' : immediateEffect ≠ .cbranch)
    (heffect : ∀ vm ops instr, instr.effect = effect →
      instr.run vm ops = onRegisters vm instr op.eval)
    (himm : ∀ vm ops instr, instr.effect = immediateEffect → instr.imm = u64FromI32Imm imm32 →
      instr.run vm ops = onImmediate vm instr op.eval) :
    Decodes index usage
      (some (decodeRegOrImm effect immediateEffect (regU8 dst) (regU8 src) imm32,
        usage.setFin dst index))
      (.int op dst (regOrImm dst src imm32)) := by
  unfold decodeRegOrImm regOrImm
  by_cases h : dst = src
  · rw [if_pos h, if_pos ((regU8_inj dst src).mpr h)]
    refine ⟨_, rfl, ?_, hne'⟩
    intro m ops
    rw [himm _ _ _ rfl rfl, onImmediate_toVm rfl]
    rfl
  · rw [if_neg h, if_neg (fun heq => h ((regU8_inj dst src).mp heq))]
    exact decodes_registers hne heffect

/-- The arms of the integer instructions with a scratchpad operand. -/
lemma decodes_memory (hne : effect ≠ .cbranch)
    (heffect : ∀ vm ops instr, instr.effect = effect →
      instr.run vm ops = onMemory vm instr op.eval) :
    Decodes index usage
      (do return (← decodeMemory effect (regU8 dst) (regU8 src) imm32 modifier
        (regU8 dst == regU8 src), usage.setFin dst index))
      (.int op dst (.mem (memoryOperand dst src imm32 modifier))) := by
  obtain ⟨instr, hdecode, hinstr, hdst, hsources⟩ :=
    decodeMemory_eq effect dst src imm32 modifier
  rw [hdecode]
  refine ⟨instr, rfl, ?_, fun h => hne (hinstr.symm.trans h)⟩
  intro m ops
  rw [heffect _ _ _ hinstr, onMemory_toVm hdst hsources]
  rfl

/-- The arms of the floating-point instructions with a scratchpad operand, which leave the usage as
it is. -/
lemma decodes_floatMemory {target : Op}
    (himplements : ∀ instr : CompactInstr, instr.effect = effect → instr.dst = floatOffset dstF →
      instr.Sources (registerAddress src imm32 modifier) → instr.Implements target)
    (hmarks : target.marks index usage = usage)
    (hjumps : ∀ instr : CompactInstr, instr.effect = effect → instr.Jumps target) :
    Decodes index usage
      (do return (← decodeFloatMemory effect (regU8 dstF) (regU8 src) imm32 modifier false, usage))
      target := by
  obtain ⟨instr, hdecode, hinstr, hdst, hsources⟩ :=
    decodeFloatMemory_eq effect dstF src imm32 modifier
  rw [hdecode]
  refine ⟨instr, ?_, himplements instr hinstr hdst hsources, hjumps instr hinstr⟩
  rw [hmarks]
  rfl

/-! ### The effects that are alone of their kind -/

variable {instr : CompactInstr}

lemma implements_nop (heffect : instr.effect = .nop) : instr.Implements .nop := by
  intro m ops
  unfold CompactInstr.run
  rw [heffect]
  rfl

/-- `exec_iadd_rs` shifts by the mode, and adds an immediate that is zero but for register 5. -/
lemma implements_iaddRs (heffect : instr.effect = .iaddRs) (hdst : instr.dst = intOffset dst)
    (hsrc : instr.src = intOffset src) :
    instr.Implements (.addShifted dst src instr.mode instr.imm) := by
  intro m ops
  unfold CompactInstr.run
  rw [heffect]
  simp [execIaddRs, hdst, hsrc, Op.exec]

/-- `exec_imul_rcp` multiplies by the reciprocal that the decoder computed. -/
lemma implements_imulRcp (heffect : instr.effect = .imulRcp) (hdst : instr.dst = intOffset dst) :
    instr.Implements (.mulRcp dst instr.imm) := by
  intro m ops
  unfold CompactInstr.run
  rw [heffect]
  show execImulRcp m.toVm instr = _
  unfold execImulRcp
  rw [onImmediate_toVm hdst]
  show _ = some (if instr.imm ≠ 0 then _ else _ : Machine).toVm
  split <;> rfl

/-- A divisor without a reciprocal is marked by zero, and the handler leaves the register as it
is. -/
lemma implements_imulRcp_nop (heffect : instr.effect = .imulRcp) (himm : instr.imm = 0) :
    instr.Implements .nop := by
  intro m ops
  unfold CompactInstr.run
  rw [heffect]
  show execImulRcp m.toVm instr = _
  unfold execImulRcp
  rw [if_neg (not_not.mpr himm)]
  rfl

/-- The handler negates with a complement and an increment. -/
lemma implements_inegR (heffect : instr.effect = .inegR) (hdst : instr.dst = intOffset dst) :
    instr.Implements (.neg dst) := by
  intro m ops
  unfold CompactInstr.run
  rw [heffect]
  simp [execInegR, hdst, Op.exec]

/-- The handler reads both registers before it writes them. -/
lemma implements_iswapR (heffect : instr.effect = .iswapR) (hdst : instr.dst = intOffset dst)
    (hsrc : instr.src = intOffset src) : instr.Implements (.swap dst src) := by
  intro m ops
  unfold CompactInstr.run
  rw [heffect]
  simp [execIswapR, hdst, hsrc, Op.exec]

/-- The two handlers of `FSWAP_R` differ in the register file only. -/
lemma implements_fswapF (heffect : instr.effect = .fswapF) (hdst : instr.dst = floatOffset dstF) :
    instr.Implements (.swapF dstF) := by
  intro m ops
  unfold CompactInstr.run
  rw [heffect]
  simp [execFswapF, hdst, Op.exec]

lemma implements_fswapE (heffect : instr.effect = .fswapE) (hdst : instr.dst = floatOffset dstF) :
    instr.Implements (.swapE dstF) := by
  intro m ops
  unfold CompactInstr.run
  rw [heffect]
  simp [execFswapE, hdst, Op.exec]

/-- Sums and differences go to the first register file. -/
lemma implements_faddR (heffect : instr.effect = .faddR) (hdst : instr.dst = floatOffset dstF)
    (hsrc : instr.src = floatOffset srcF) : instr.Implements (.addF dstF (.reg srcF)) := by
  intro m ops
  unfold CompactInstr.run
  rw [heffect]
  simp [execFaddR, hdst, hsrc, Op.exec, FloatOperand.value]

lemma implements_fsubR (heffect : instr.effect = .fsubR) (hdst : instr.dst = floatOffset dstF)
    (hsrc : instr.src = floatOffset srcF) : instr.Implements (.subF dstF (.reg srcF)) := by
  intro m ops
  unfold CompactInstr.run
  rw [heffect]
  simp [execFsubR, hdst, hsrc, Op.exec, FloatOperand.value]

/-- Products, quotients and roots go to the second one, and have positive operands. -/
lemma implements_fmulR (heffect : instr.effect = .fmulR) (hdst : instr.dst = floatOffset dstF)
    (hsrc : instr.src = floatOffset srcF) : instr.Implements (.mulE dstF srcF) := by
  intro m ops
  unfold CompactInstr.run
  rw [heffect]
  simp [execFmulR, hdst, hsrc, Op.exec]

/-- `exec_fscal_r` flips the sign and bits of the exponent, without rounding. -/
lemma implements_fscalR (heffect : instr.effect = .fscalR) (hdst : instr.dst = floatOffset dstF) :
    instr.Implements (.scaleF dstF) := by
  intro m ops
  unfold CompactInstr.run
  rw [heffect]
  simp [execFscalR, hdst, Op.exec, scaleMask]

lemma implements_fsqrtR (heffect : instr.effect = .fsqrtR) (hdst : instr.dst = floatOffset dstF) :
    instr.Implements (.sqrtE dstF) := by
  intro m ops
  unfold CompactInstr.run
  rw [heffect]
  simp [execFsqrtR, hdst, Op.exec]

section
variable {address : Address}

lemma implements_faddM (heffect : instr.effect = .faddM) (hdst : instr.dst = floatOffset dstF)
    (hsrc : instr.Sources address) : instr.Implements (.addF dstF (.mem address)) := by
  intro m ops
  unfold CompactInstr.run
  rw [heffect]
  simp [execFaddM, hdst, hsrc m, Op.exec, FloatOperand.value]

lemma implements_fsubM (heffect : instr.effect = .fsubM) (hdst : instr.dst = floatOffset dstF)
    (hsrc : instr.Sources address) : instr.Implements (.subF dstF (.mem address)) := by
  intro m ops
  unfold CompactInstr.run
  rw [heffect]
  simp [execFsubM, hdst, hsrc m, Op.exec, FloatOperand.value]

/-- The divisor is masked to the exponents of the configuration before the call. -/
lemma implements_fdivM (heffect : instr.effect = .fdivM) (hdst : instr.dst = floatOffset dstF)
    (hsrc : instr.Sources address) : instr.Implements (.divE dstF address) := by
  intro m ops
  unfold CompactInstr.run
  rw [heffect]
  simp [execFdivM, hdst, hsrc m, Op.exec, Machine.divisor]

/-- A store addresses its destination register plus the immediate, within the level of the mask. -/
lemma implements_istore (heffect : instr.effect = .istore) (hdst : instr.dst = intOffset dst)
    (hsrc : instr.src = intOffset src) (level : Level)
    (hmask : instr.memoryMask = level.mask.setWidth 32) :
    instr.Implements (.store ⟨some dst, instr.imm, level⟩ src) := by
  intro m ops
  have hoffset : scratchpadDstOffset m.toVm instr
      = some (Address.byteOffset ⟨some dst, instr.imm, level⟩ m.r) := by
    unfold scratchpadDstOffset
    rw [hmask, hdst, r_toVm, setWidth_levelMask, guard_levelMask]
    rfl
  unfold CompactInstr.run
  rw [heffect]
  simp [execIstore, hoffset, hsrc, Op.exec]

end

/-- The mode is the two low bits of the rotated register, which the assertion accepts. -/
lemma implements_cfround {amount : U32} (heffect : instr.effect = .cfround)
    (hsrc : instr.src = intOffset src) (himm : instr.imm = amount.setWidth 64) :
    instr.Implements (.round src amount.toNat) := by
  intro m ops
  have hamount : (instr.imm.setWidth 32).toNat = amount.toNat := by
    rw [himm, BitVec.setWidth_setWidth_of_le _ (by decide), BitVec.setWidth_eq]
  unfold CompactInstr.run
  rw [heffect]
  show execCfround m.toVm instr = _
  unfold execCfround
  rw [hsrc, r_toVm, hamount]
  exact m.setRoundingMode_toVm _

/-- The decoder set and cleared the bits of the immediate, so the handler adds it as it is. -/
lemma implements_cbranch {imm : U32} {condition : Fin 16} (heffect : instr.effect = .cbranch)
    (hdst : instr.dst = intOffset dst) (hmode : instr.mode.toNat = branchBit condition)
    (himm : instr.imm = branchIncrement imm (branchBit condition)) :
    instr.Implements (.branch dst imm condition instr.target) := by
  intro m ops
  unfold CompactInstr.run
  rw [heffect]
  show execCbranch m.toVm instr = _
  unfold execCbranch
  rw [hdst, r_toVm, Option.bind_eq_bind, Option.bind_some]
  dsimp only
  rw [setR_toVm, Option.bind_eq_bind, Option.bind_some, hmode, himm]
  show (if branchTaken _ _ then _ else _) = some (if branchTaken _ _ then _ else _ : Machine).toVm
  split <;> rfl

/-! ### The decoder -/

/-- The shift of a condition is at most 23 and fits the mode. -/
lemma toNat_conditionShift (modifier : U8) :
    ((modifier >>> 4) + conditionOffset).toNat = branchBit (conditionOf modifier) := by
  have hshift : (modifier >>> 4).toNat < 16 := by
    rw [BitVec.toNat_ushiftRight, Nat.shiftRight_eq_div_pow]
    omega
  have hcondition : (conditionOf modifier : ℕ) = (modifier >>> 4).toNat := Nat.mod_eq_of_lt hshift
  unfold branchBit
  rw [BitVec.toNat_add, hcondition]
  show ((modifier >>> 4).toNat + 8) % 2 ^ 8 = (modifier >>> 4).toNat + 8
  omega

/-- A store goes to the whole scratchpad if its condition is 14 or 15. -/
lemma storeMode_eq (modifier : U8) :
    (if modifier >>> 4 ≥ storeL3Condition then memL3 else if modifier &&& 3 = 0 then memL2 else memL1)
      = levelMode (if 14 ≤ conditionOf modifier then .l3 else levelOf modifier) := by
  have hshift : (modifier >>> 4).toNat < 16 := by
    rw [BitVec.toNat_ushiftRight, Nat.shiftRight_eq_div_pow]
    omega
  have hcondition : (conditionOf modifier : ℕ) = (modifier >>> 4).toNat := Nat.mod_eq_of_lt hshift
  have hiff : modifier >>> 4 ≥ storeL3Condition ↔ 14 ≤ conditionOf modifier := by
    rw [ge_iff_le, BitVec.le_def, Fin.le_def, hcondition]
    rfl
  unfold levelOf
  by_cases h : 14 ≤ conditionOf modifier
  · rw [if_pos h, if_pos (hiff.mpr h)]
    rfl
  · rw [if_neg h, if_neg (fun hge => h (hiff.mp hge))]
    split <;> rfl

/-- A rotation by an immediate is the rotation by a register that holds it. -/
lemma onImmediate_rotate {vm : Vm} {op : IntOp} {rotate : U64 → U64 → U64}
    (hrotate : ∀ dst imm, imm.toNat < 64 → rotate dst imm = op.eval dst imm) (imm : U32)
    (himm : instr.imm = u64FromI32Imm (imm &&& 63)) :
    onImmediate vm instr rotate = onImmediate vm instr op.eval := by
  unfold onImmediate
  rw [himm]
  simp only [hrotate _ _ (toNat_u64FromI32Imm_and_63 imm)]

/-- Every word decodes, to an instruction that implements its operation and with the usage that the
operation marks. -/
theorem decodeInstruction_decodes (raw : U64) (index : ℤ) (usage : Vector ℤ 8) :
    Decodes index usage (decodeInstruction raw index usage) (decodeOp raw usage) := by
  unfold decodeInstruction decodeOp opcodeField dstField srcField modifierField immField
  dsimp only
  -- IADD_RS, which adds its immediate to register 5 only
  refine Decodes.ite (fun _ => ?_) fun _ => ?_
  · refine ⟨_, rfl, ?_, nofun⟩
    simp only [regU8_eq_five]
    exact implements_iaddRs rfl rfl rfl
  -- IADD_M
  refine Decodes.ite (fun _ => ?_) fun _ => ?_
  · apply decodes_memory
    · exact nofun
    · intro vm ops instr h
      rw [CompactInstr.run, h]
      rfl
  -- ISUB_R
  refine Decodes.ite (fun _ => ?_) fun _ => ?_
  · apply decodes_regOrImm
    · exact nofun
    · exact nofun
    · intro vm ops instr h
      rw [CompactInstr.run, h]
      rfl
    · intro vm ops instr h _
      rw [CompactInstr.run, h]
      rfl
  -- ISUB_M
  refine Decodes.ite (fun _ => ?_) fun _ => ?_
  · apply decodes_memory
    · exact nofun
    · intro vm ops instr h
      rw [CompactInstr.run, h]
      rfl
  -- IMUL_R
  refine Decodes.ite (fun _ => ?_) fun _ => ?_
  · apply decodes_regOrImm
    · exact nofun
    · exact nofun
    · intro vm ops instr h
      rw [CompactInstr.run, h]
      rfl
    · intro vm ops instr h _
      rw [CompactInstr.run, h]
      rfl
  -- IMUL_M
  refine Decodes.ite (fun _ => ?_) fun _ => ?_
  · apply decodes_memory
    · exact nofun
    · intro vm ops instr h
      rw [CompactInstr.run, h]
      rfl
  -- IMULH_R
  refine Decodes.ite (fun _ => ?_) fun _ => ?_
  · apply decodes_registers
    · exact nofun
    · intro vm ops instr h
      rw [CompactInstr.run, h]
      rfl
  -- IMULH_M
  refine Decodes.ite (fun _ => ?_) fun _ => ?_
  · apply decodes_memory
    · exact nofun
    · intro vm ops instr h
      rw [CompactInstr.run, h]
      rfl
  -- ISMULH_R
  refine Decodes.ite (fun _ => ?_) fun _ => ?_
  · apply decodes_registers
    · exact nofun
    · intro vm ops instr h
      rw [CompactInstr.run, h]
      rfl
  -- ISMULH_M
  refine Decodes.ite (fun _ => ?_) fun _ => ?_
  · apply decodes_memory
    · exact nofun
    · intro vm ops instr h
      rw [CompactInstr.run, h]
      rfl
  -- IMUL_RCP, which does nothing where the divisor has no reciprocal
  refine Decodes.ite (fun _ => ?_) fun _ => ?_
  · refine Decodes.ite (fun _ => ⟨_, rfl, implements_imulRcp_nop rfl rfl, nofun⟩) fun hdivisor => ?_
    obtain ⟨reciprocal, hreciprocal⟩ := exists_randomxReciprocal
      (ne_zero_of_not_isZeroOrPowerOf2 (Bool.eq_false_of_not_eq_true hdivisor))
    rw [hreciprocal]
    exact ⟨_, rfl, implements_imulRcp rfl rfl, nofun⟩
  -- INEG_R
  refine Decodes.ite (fun _ => ?_) fun _ => ?_
  · exact ⟨_, rfl, implements_inegR rfl rfl, nofun⟩
  -- IXOR_R
  refine Decodes.ite (fun _ => ?_) fun _ => ?_
  · apply decodes_regOrImm
    · exact nofun
    · exact nofun
    · intro vm ops instr h
      rw [CompactInstr.run, h]
      rfl
    · intro vm ops instr h _
      rw [CompactInstr.run, h]
      rfl
  -- IXOR_M
  refine Decodes.ite (fun _ => ?_) fun _ => ?_
  · apply decodes_memory
    · exact nofun
    · intro vm ops instr h
      rw [CompactInstr.run, h]
      rfl
  -- IROR_R: the immediate is masked when it is used, not here
  refine Decodes.ite (fun _ => ?_) fun _ => ?_
  · apply decodes_regOrImm
    · exact nofun
    · exact nofun
    · intro vm ops instr h
      rw [CompactInstr.run, h]
      rfl
    · intro vm ops instr h himm
      rw [CompactInstr.run, h]
      exact onImmediate_rotate (fun dst imm himm => congrArg dst.rotateRight (rotateAmount_eq himm).symm)
        _ himm
  -- IROL_R: likewise
  refine Decodes.ite (fun _ => ?_) fun _ => ?_
  · apply decodes_regOrImm
    · exact nofun
    · exact nofun
    · intro vm ops instr h
      rw [CompactInstr.run, h]
      rfl
    · intro vm ops instr h himm
      rw [CompactInstr.run, h]
      exact onImmediate_rotate (fun dst imm himm => congrArg dst.rotateLeft (rotateAmount_eq himm).symm)
        _ himm
  -- ISWAP_R, which does nothing on a single register
  refine Decodes.ite (fun _ => ?_) fun _ => ?_
  · simp only [regU8_inj]
    refine Decodes.ite (fun _ => ⟨_, rfl, implements_nop rfl, nofun⟩) fun _ => ?_
    exact ⟨_, rfl, implements_iswapR rfl rfl rfl, nofun⟩
  -- FSWAP_R of an E register from 4 on, and of an F register below
  refine Decodes.ite (fun _ => ?_) fun _ => ?_
  · simp only [regU8_mod_four, four_le_regU8]
    split_ifs
    · exact ⟨_, rfl, implements_fswapE rfl rfl, nofun⟩
    · exact ⟨_, rfl, implements_fswapF rfl rfl, nofun⟩
  -- FADD_R
  refine Decodes.ite (fun _ => ?_) fun _ => ?_
  · exact ⟨_, rfl, implements_faddR rfl rfl rfl, nofun⟩
  -- FADD_M
  refine Decodes.ite (fun _ => ?_) fun _ => ?_
  · exact decodes_floatMemory (fun _ => implements_faddM) rfl fun _ h h' => nomatch h.symm.trans h'
  -- FSUB_R
  refine Decodes.ite (fun _ => ?_) fun _ => ?_
  · exact ⟨_, rfl, implements_fsubR rfl rfl rfl, nofun⟩
  -- FSUB_M
  refine Decodes.ite (fun _ => ?_) fun _ => ?_
  · exact decodes_floatMemory (fun _ => implements_fsubM) rfl fun _ h h' => nomatch h.symm.trans h'
  -- FSCAL_R
  refine Decodes.ite (fun _ => ?_) fun _ => ?_
  · exact ⟨_, rfl, implements_fscalR rfl rfl, nofun⟩
  -- FMUL_R
  refine Decodes.ite (fun _ => ?_) fun _ => ?_
  · exact ⟨_, rfl, implements_fmulR rfl rfl rfl, nofun⟩
  -- FDIV_M
  refine Decodes.ite (fun _ => ?_) fun _ => ?_
  · exact decodes_floatMemory (fun _ => implements_fdivM) rfl fun _ h h' => nomatch h.symm.trans h'
  -- FSQRT_R
  refine Decodes.ite (fun _ => ?_) fun _ => ?_
  · exact ⟨_, rfl, implements_fsqrtR rfl rfl, nofun⟩
  -- CBRANCH
  refine Decodes.ite (fun _ => ?_) fun _ => ?_
  · refine ⟨_, rfl, implements_cbranch rfl rfl (toNat_conditionShift _) ?_, rfl, rfl, rfl⟩
    dsimp only [CompactInstr.new]
    rw [toNat_conditionShift]
    rfl
  -- CFROUND
  refine Decodes.ite (fun _ => ?_) fun _ => ?_
  · exact ⟨_, rfl, implements_cfround rfl rfl rfl, nofun⟩
  -- ISTORE
  refine Decodes.ite (fun _ => ?_) fun _ => ⟨_, rfl, implements_nop rfl, nofun⟩
  rw [storeMode_eq, newMemory_levelMode]
  exact ⟨_, rfl, implements_istore rfl rfl rfl _ rfl, nofun⟩

end

end RandomXSp1.Optimized
