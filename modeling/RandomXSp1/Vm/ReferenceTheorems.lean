import RandomXSp1.Vm.Decode
import RandomXSp1.Vm.Reference

/-!
# The reference interpreter follows the machine

Where the lane arithmetic of the machine is defined and the host agrees with it, an effect of the
reference interpreter does to the state what its operation does to the machine. Some of its
effects add and multiply with their operands exchanged.
-/

namespace RandomXSp1.Reference

open SoftFp (RoundingMode)

/-! ## Words and immediates -/

/-- Both conversions of an immediate extend its sign. -/
lemma u64FromI32Imm_eq_signExtend (imm : U32) : u64FromI32Imm imm = imm.signExtend 64 := by
  have hhigh : ∀ i : Fin 64, (0xffffffff00000000#64).getLsbD i = decide (32 ≤ (i : ℕ)) := by decide
  have hmsb : int32Max < imm ↔ imm.msb = true := by
    rw [BitVec.lt_def, BitVec.msb_eq_decide, decide_eq_true_iff]
    unfold int32Max
    simp only [BitVec.toNat_ofNat]
    omega
  unfold u64FromI32Imm
  apply BitVec.eq_of_getLsbD_eq
  intro i hi
  rw [BitVec.getLsbD_signExtend]
  split
  · rename_i h
    rw [BitVec.getLsbD_or, BitVec.getLsbD_setWidth, hhigh ⟨i, hi⟩, hmsb.mp h]
    by_cases hlow : i < 32
    · simp [hi, hlow]
    · have hge : 32 ≤ i := by omega
      simp [hi, hlow, hge]
  · rename_i h
    rw [BitVec.getLsbD_setWidth]
    by_cases hlow : i < 32
    · simp [hi, hlow]
    · have hfalse : imm.msb = false := Bool.eq_false_of_not_eq_true (fun hm => h (hmsb.mpr hm))
      simp [hi, hlow, hfalse, BitVec.getLsbD_of_ge imm i (by omega)]

/-- A remainder by four is a mask, for words and for bytes. -/
lemma umod_four (word : U64) : word % 4 = word &&& 3 := by
  apply BitVec.eq_of_toNat_eq
  have hmask : (3 : U64).toNat = 2 ^ 2 - 1 := rfl
  rw [BitVec.toNat_umod, BitVec.toNat_and, hmask, Nat.and_two_pow_sub_one_eq_mod]
  rfl

lemma umod_four_u8 : ∀ x : U8, x % 4 = x &&& 3 := by decide

/-- The memory modifier is its two low bits. -/
lemma modMemU8_eq (modi : U8) : modMemU8 modi = modi &&& 3 := umod_four_u8 modi

/-- An offset within the largest level is not negative as an immediate. -/
lemma u64FromI32Imm_and_mask (imm : U32) :
    u64FromI32Imm (imm &&& scratchpadL3Mask.setWidth 32) &&& scratchpadL3Mask
      = imm.setWidth 64 &&& scratchpadL3Mask := by
  have hle : (imm &&& scratchpadL3Mask.setWidth 32).toNat ≤ 0x1ffff8 := by
    rw [BitVec.toNat_and]
    exact Nat.and_le_right
  have hmask : (scratchpadL3Mask.setWidth 32 : U32).setWidth 64 = scratchpadL3Mask := by decide
  unfold u64FromI32Imm
  rw [if_neg, BitVec.setWidth_and, hmask, BitVec.and_assoc, BitVec.and_self]
  rw [BitVec.lt_def]
  unfold int32Max
  simp only [BitVec.toNat_ofNat]
  omega

/-! ## Operands -/

section
variable (m : Machine)

/-- The checked write changes one register of the file. -/
lemma setFile_eq {α : Type} {n : ℕ} (file : Vector α n) (i : Fin n) (value : α) :
    setFile file i value = some (file.setFin i value) := by
  unfold setFile
  rw [if_pos i.isLt]
  apply congrArg some
  ext k hk
  simp [Vector.getElem_set, Vector.getElem_setIfInBounds]

@[simp] lemma readR_toVm (i : Fin 8) : readR m.toVm (.r i) = some m.r[i] :=
  Vector.getElem?_eq_getElem i.isLt

@[simp] lemma writeR_toVm (i : Fin 8) (value : U64) :
    writeR m.toVm value (.r i) = some (m.setR i value).toVm := by
  unfold writeR
  dsimp only
  rw [setFile_eq]
  rfl

@[simp] lemma readF_toVm (i : Fin 4) : readF m.toVm (.f i) = some m.f[i] :=
  Vector.getElem?_eq_getElem i.isLt

@[simp] lemma writeF_toVm (i : Fin 4) (value : M128d) :
    writeF m.toVm value (.f i) = some (m.setF i value).toVm := by
  unfold writeF
  dsimp only
  rw [setFile_eq]
  rfl

@[simp] lemma readE_toVm (i : Fin 4) : readE m.toVm (.e i) = some m.e[i] :=
  Vector.getElem?_eq_getElem i.isLt

@[simp] lemma writeE_toVm (i : Fin 4) (value : M128d) :
    writeE m.toVm value (.e i) = some (m.setE i value).toVm := by
  unfold writeE
  dsimp only
  rw [setFile_eq]
  rfl

@[simp] lemma readA_toVm (i : Fin 4) : readA m.toVm (.a i) = some m.a[i] :=
  Vector.getElem?_eq_getElem i.isLt

/-- The bounds check on a masked index never fails. -/
lemma scratchpad_toVm (address : Address) :
    m.toVm.scratchpad[(address.byteOffset m.r).toNat / 8]? = some (m.load address) := by
  show m.scratchpad.toArray[(address.word m.r : ℕ)]? = some m.scratchpad[address.word m.r]
  rw [Vector.getElem?_toArray]
  exact Vector.getElem?_eq_getElem (address.word m.r).isLt

/-- The host rounds as the state says. -/
@[simp] lemma hostRoundingMode_toVm : hostRoundingMode m.toVm = m.mode := by
  unfold hostRoundingMode Vm.getRoundingMode Machine.toVm
  cases m.mode <;> rfl

end

/-! ## Lane arithmetic -/

/-- Where the operations are defined, the host computes the same, in either order of the operands
of an addition or a multiplication. -/
def Agrees (host : LaneCall → U64) (ops : LaneOps) : Prop :=
  ∀ call value, ops call = some value → host call = value ∧ host call.swap = value

section
variable {host : LaneCall → U64} {ops : LaneOps} (hagrees : Agrees host ops) {m : Machine}
  {x y z : M128d}
include hagrees

/-- An operator of `m128d` returns what the lane calls return, lane by lane. -/
lemma native_eq {call : RoundingMode → U64 → U64 → LaneCall}
    (h : ops.both (call m.mode) x y = some z) : native m.toVm host call x y = z := by
  obtain ⟨low, hlow, hrest⟩ := Option.bind_eq_some_iff.mp h
  obtain ⟨high, hhigh, hz⟩ := Option.bind_eq_some_iff.mp hrest
  obtain rfl := Option.some.inj hz
  unfold native
  rw [hostRoundingMode_toVm]
  dsimp only
  rw [(hagrees _ _ hlow).1, (hagrees _ _ hhigh).1]

/-- So does a multiplication with its operands in the other order. -/
lemma native_swap_eq {call : RoundingMode → U64 → U64 → LaneCall}
    (hswap : ∀ mode a b, (call mode a b).swap = call mode b a)
    (h : ops.both (call m.mode) x y = some z) : native m.toVm host call y x = z := by
  obtain ⟨low, hlow, hrest⟩ := Option.bind_eq_some_iff.mp h
  obtain ⟨high, hhigh, hz⟩ := Option.bind_eq_some_iff.mp hrest
  obtain rfl := Option.some.inj hz
  have hlow' := (hagrees _ _ hlow).2
  have hhigh' := (hagrees _ _ hhigh).2
  rw [hswap] at hlow' hhigh'
  unfold native
  rw [hostRoundingMode_toVm]
  dsimp only
  rw [hlow', hhigh']

/-- So does the root. -/
lemma nativeSqrt_eq (h : ops.bothSqrt m.mode x = some z) : nativeSqrt m.toVm host x = z := by
  obtain ⟨low, hlow, hrest⟩ := Option.bind_eq_some_iff.mp h
  obtain ⟨high, hhigh, hz⟩ := Option.bind_eq_some_iff.mp hrest
  obtain rfl := Option.some.inj hz
  unfold nativeSqrt
  rw [hostRoundingMode_toVm]
  dsimp only
  rw [(hagrees _ _ hlow).1, (hagrees _ _ hhigh).1]

end

/-! ## Effects -/

/-- Wherever the operation takes a machine, the instruction takes its state, on every host that
agrees. -/
def Instr.Follows (instr : Instr) (op : Op) : Prop :=
  ∀ (m m' : Machine) (ops : LaneOps) (host : LaneCall → U64), Agrees host ops →
    op.exec ops m = some m' → instr.execute m.toVm host = some m'.toVm

/-- The scratchpad operand of the instruction is the word at the address. -/
def Instr.Sources (instr : Instr) (address : Address) : Prop :=
  ∀ m : Machine, scratchpadSrcIx m.toVm instr = some ((address.byteOffset m.r).toNat / 8)

section
variable {m : Machine} {instr : Instr} {dst src : Fin 8} {address : Address}

/-- The operand that an instruction sources is the word at the address. -/
lemma Instr.Sources.scratchpadSrc_eq (h : instr.Sources address) (m : Machine) :
    scratchpadSrc m.toVm instr = some (m.load address) := by
  unfold scratchpadSrc
  rw [h m]
  exact scratchpad_toVm m address

/-- An instruction whose source is a register. -/
lemma onSource_toVm (hdst : instr.dst = .r dst) (hsrc : instr.src = .r src)
    (op : U64 → U64 → U64) :
    onSource m.toVm instr op = some (m.setR dst (op m.r[dst] m.r[src])).toVm := by
  simp [onSource, hdst, hsrc]

/-- An instruction with a register or an immediate, when it has the register. -/
lemma onImmOrR_register (hdst : instr.dst = .r dst) (hsrc : instr.src = .r src)
    (op : U64 → U64 → U64) :
    onImmOrR m.toVm instr op = some (m.setR dst (op m.r[dst] m.r[src])).toVm := by
  simp [onImmOrR, immOrR, hdst, hsrc]

/-- The same when it has no source, so that the immediate counts. -/
lemma onImmOrR_immediate {imm : U32} (hdst : instr.dst = .r dst) (hsrc : instr.src = .none)
    (himm : instr.imm = some imm) (op : U64 → U64 → U64) :
    onImmOrR m.toVm instr op = some (m.setR dst (op m.r[dst] (u64FromI32Imm imm))).toVm := by
  simp [onImmOrR, immOrR, hdst, hsrc, himm, u64FromI32Imm_eq_signExtend]

/-- An instruction whose source is a word of the scratchpad. -/
lemma onScratchpad_toVm (hdst : instr.dst = .r dst) (hsrc : instr.Sources address)
    (op : U64 → U64 → U64) :
    onScratchpad m.toVm instr op = some (m.setR dst (op m.r[dst] (m.load address))).toVm := by
  simp [onScratchpad, hdst, hsrc.scratchpadSrc_eq m]

/-! ### The effects that are alone of their kind -/

variable {dstF srcF : Fin 4}

/-- A decoded no-op leaves the state as it is. -/
lemma follows_nop (heffect : instr.effect = .nop) : instr.Follows .nop := by
  intro m m' ops host _ h
  obtain rfl := Option.some.inj h
  unfold Instr.execute
  rw [heffect]
  rfl

/-- The immediate is absent but for register 5. -/
lemma follows_iaddRs {shift : U8} {imm : U64} (heffect : instr.effect = .iaddRs)
    (hdst : instr.dst = .r dst) (hsrc : instr.src = .r src) (hmode : instr.mode = .shft shift)
    (himm : (instr.imm.map u64FromI32Imm).getD 0 = imm) :
    instr.Follows (.addShifted dst src shift imm) := by
  intro m m' ops host _ h
  obtain rfl := Option.some.inj h
  unfold Instr.execute
  rw [heffect]
  show execIaddRs m.toVm instr = _
  unfold execIaddRs shiftMode
  rw [hdst, hsrc, hmode, ← himm]
  cases instr.imm <;> simp

/-- The handler multiplies by the reciprocal of the instruction. -/
lemma follows_imulRcp (heffect : instr.effect = .imulRcp) (hdst : instr.dst = .r dst) :
    instr.Follows (.mulRcp dst instr.reciprocal) := by
  intro m m' ops host _ h
  obtain rfl := Option.some.inj h
  unfold Instr.execute
  rw [heffect]
  show execImulRcp m.toVm instr = _
  unfold execImulRcp
  rw [hdst, readR_toVm, Option.bind_eq_bind, Option.bind_some, writeR_toVm]
  split <;> rfl

/-- A reciprocal of zero stands for a divisor without one. -/
lemma follows_imulRcp_nop (heffect : instr.effect = .imulRcp) (hzero : instr.reciprocal = 0) :
    instr.Follows .nop := by
  intro m m' ops host _ h
  obtain rfl := Option.some.inj h
  unfold Instr.execute
  rw [heffect]
  show execImulRcp m.toVm instr = _
  unfold execImulRcp
  rw [if_neg (not_not.mpr hzero)]

lemma follows_inegR (heffect : instr.effect = .inegR) (hdst : instr.dst = .r dst) :
    instr.Follows (.neg dst) := by
  intro m m' ops host _ h
  obtain rfl := Option.some.inj h
  unfold Instr.execute
  rw [heffect]
  simp [execInegR, hdst]

lemma follows_iswapR (heffect : instr.effect = .iswapR) (hdst : instr.dst = .r dst)
    (hsrc : instr.src = .r src) : instr.Follows (.swap dst src) := by
  intro m m' ops host _ h
  obtain rfl := Option.some.inj h
  unfold Instr.execute
  rw [heffect]
  simp [execIswapR, hdst, hsrc]

/-- The one handler of `FSWAP_R` tells the two register files apart by the operand. -/
lemma follows_fswapR_f (heffect : instr.effect = .fswapR) (hdst : instr.dst = .f dstF) :
    instr.Follows (.swapF dstF) := by
  intro m m' ops host _ h
  obtain rfl := Option.some.inj h
  unfold Instr.execute
  rw [heffect]
  show execFswapR m.toVm instr = _
  unfold execFswapR
  rw [hdst]
  exact (congrArg (Option.bind · _) (readF_toVm m dstF)).trans (writeF_toVm m dstF _)

lemma follows_fswapR_e (heffect : instr.effect = .fswapR) (hdst : instr.dst = .e dstF) :
    instr.Follows (.swapE dstF) := by
  intro m m' ops host _ h
  obtain rfl := Option.some.inj h
  unfold Instr.execute
  rw [heffect]
  show execFswapR m.toVm instr = _
  unfold execFswapR
  rw [hdst]
  exact (congrArg (Option.bind · _) (readE_toVm m dstF)).trans (writeE_toVm m dstF _)

lemma follows_fscalR (heffect : instr.effect = .fscalR) (hdst : instr.dst = .f dstF) :
    instr.Follows (.scaleF dstF) := by
  intro m m' ops host _ h
  obtain rfl := Option.some.inj h
  unfold Instr.execute
  rw [heffect]
  simp [execFscalR, hdst, scaleMask]

/-- Sums and differences call the host in the mode of the state. -/
lemma follows_faddR (heffect : instr.effect = .faddR) (hdst : instr.dst = .f dstF)
    (hsrc : instr.src = .a srcF) : instr.Follows (.addF dstF (.reg srcF)) := by
  intro m m' ops host hagrees h
  obtain ⟨value, hvalue, rfl⟩ := Option.map_eq_some_iff.mp h
  obtain rfl := native_swap_eq hagrees (fun _ _ _ => rfl) hvalue
  unfold Instr.execute
  rw [heffect]
  simp [execFaddR, hdst, hsrc, FloatOperand.value]

lemma follows_fsubR (heffect : instr.effect = .fsubR) (hdst : instr.dst = .f dstF)
    (hsrc : instr.src = .a srcF) : instr.Follows (.subF dstF (.reg srcF)) := by
  intro m m' ops host hagrees h
  obtain ⟨value, hvalue, rfl⟩ := Option.map_eq_some_iff.mp h
  obtain rfl := native_eq hagrees hvalue
  unfold Instr.execute
  rw [heffect]
  simp [execFsubR, hdst, hsrc, FloatOperand.value]

/-- The handler multiplies in the other order, which the condition on the host covers. -/
lemma follows_fmulR (heffect : instr.effect = .fmulR) (hdst : instr.dst = .e dstF)
    (hsrc : instr.src = .a srcF) : instr.Follows (.mulE dstF srcF) := by
  intro m m' ops host hagrees h
  obtain ⟨value, hvalue, rfl⟩ := Option.map_eq_some_iff.mp h
  obtain rfl := native_swap_eq hagrees (fun _ _ _ => rfl) hvalue
  unfold Instr.execute
  rw [heffect]
  simp [execFmulR, hdst, hsrc]

lemma follows_fsqrtR (heffect : instr.effect = .fsqrtR) (hdst : instr.dst = .e dstF) :
    instr.Follows (.sqrtE dstF) := by
  intro m m' ops host hagrees h
  obtain ⟨value, hvalue, rfl⟩ := Option.map_eq_some_iff.mp h
  obtain rfl := nativeSqrt_eq hagrees hvalue
  unfold Instr.execute
  rw [heffect]
  simp [execFsqrtR, hdst]

lemma follows_faddM (heffect : instr.effect = .faddM) (hdst : instr.dst = .f dstF)
    (hsrc : instr.Sources address) : instr.Follows (.addF dstF (.mem address)) := by
  intro m m' ops host hagrees h
  obtain ⟨value, hvalue, rfl⟩ := Option.map_eq_some_iff.mp h
  obtain rfl := native_eq hagrees hvalue
  unfold Instr.execute
  rw [heffect]
  simp [execFaddM, hdst, hsrc.scratchpadSrc_eq m, FloatOperand.value]

lemma follows_fsubM (heffect : instr.effect = .fsubM) (hdst : instr.dst = .f dstF)
    (hsrc : instr.Sources address) : instr.Follows (.subF dstF (.mem address)) := by
  intro m m' ops host hagrees h
  obtain ⟨value, hvalue, rfl⟩ := Option.map_eq_some_iff.mp h
  obtain rfl := native_eq hagrees hvalue
  unfold Instr.execute
  rw [heffect]
  simp [execFsubM, hdst, hsrc.scratchpadSrc_eq m, FloatOperand.value]

/-- The divisor is masked as in the other interpreter. -/
lemma follows_fdivM (heffect : instr.effect = .fdivM) (hdst : instr.dst = .e dstF)
    (hsrc : instr.Sources address) : instr.Follows (.divE dstF address) := by
  intro m m' ops host hagrees h
  obtain ⟨value, hvalue, rfl⟩ := Option.map_eq_some_iff.mp h
  obtain rfl := native_eq hagrees hvalue
  unfold Instr.execute
  rw [heffect]
  simp [execFdivM, hdst, hsrc.scratchpadSrc_eq m, Machine.divisor]

/-- The rotation amount was masked when the instruction was decoded. -/
lemma follows_cfround {amount : U32} (heffect : instr.effect = .cfround)
    (hsrc : instr.src = .r src) (himm : instr.imm = some amount) :
    instr.Follows (.round src amount.toNat) := by
  intro m m' ops host _ h
  obtain rfl := Option.some.inj h
  unfold Instr.execute
  rw [heffect]
  show execCfround m.toVm instr = _
  unfold execCfround
  rw [hsrc, himm, readR_toVm, Option.bind_eq_bind, Option.bind_some, Option.bind_eq_bind,
    Option.bind_some]
  dsimp only
  rw [umod_four]
  exact m.setRoundingMode_toVm _

/-- Here the handler itself sets and clears the bits of the immediate. -/
lemma follows_cbranch {imm : U32} {modi : U8} {target : ℤ} (heffect : instr.effect = .cbranch)
    (hdst : instr.dst = .r dst) (hmode : instr.mode = modCond modi)
    (himm : instr.imm = some imm) (htarget : instr.target = some target) :
    instr.Follows (.branch dst imm (conditionOf modi) target) := by
  intro m m' ops host _ h
  have hshift : (modi >>> 4).toNat < 16 := by
    rw [BitVec.toNat_ushiftRight, Nat.shiftRight_eq_div_pow]
    omega
  have hbit : (modCondU8 modi).toNat + 8 = branchBit (conditionOf modi) := by
    unfold branchBit conditionOf modCondU8
    rw [Fin.val_ofNat, Nat.mod_eq_of_lt hshift]
  unfold Instr.execute
  rw [heffect]
  show execCbranch m.toVm instr = _
  unfold execCbranch condMode modCond at *
  rw [hmode, himm, hdst, htarget, Option.bind_eq_bind, Option.bind_some]
  dsimp only
  simp only [Option.bind_eq_bind, Option.bind_some, readR_toVm, writeR_toVm, hbit]
  rcases Op.exec_branch_eq_some h with ⟨htaken, rfl⟩ | ⟨htaken, rfl⟩
  · exact if_pos htaken
  · exact if_neg htaken

/-- A store indexes words, where the other interpreter offsets bytes. -/
lemma follows_istore (heffect : instr.effect = .istore) (hsrc : instr.src = .r src)
    (haddress : ∀ m : Machine,
      scratchpadDstIx m.toVm instr = some ((address.byteOffset m.r).toNat / 8)) :
    instr.Follows (.store address src) := by
  intro m m' ops host _ h
  obtain rfl := Option.some.inj h
  have hlt : (address.byteOffset m.r).toNat / 8 < m.scratchpad.toArray.size := by
    rw [Vector.size_toArray]
    exact (address.word m.r).isLt
  unfold Instr.execute
  rw [heffect]
  show execIstore m.toVm instr = _
  unfold execIstore
  rw [haddress m, hsrc, readR_toVm, Option.bind_eq_bind, Option.bind_some, Option.bind_eq_bind,
    Option.bind_some]
  rw [if_pos (show _ < m.toVm.scratchpad.size from hlt)]
  apply congrArg some
  unfold Machine.toVm Machine.store
  dsimp only
  congr 1
  exact dif_pos hlt

end

/-! ## Decoding -/

section
variable (bytes : U64)

/-- The fields of a word: this decoder masks before it shifts, the other one after. -/
lemma dst_eq : ((bytes &&& 0xff00) >>> 8).toNat = dstField bytes := by
  rw [BitVec.ushiftRight_and_distrib]
  rfl

lemma src_eq : ((bytes &&& 0xff0000) >>> 16).toNat = srcField bytes := by
  rw [BitVec.ushiftRight_and_distrib]
  rfl

lemma modi_eq : ((bytes &&& 0xff000000) >>> 24).setWidth 8 = modifierField bytes := by
  rw [BitVec.ushiftRight_and_distrib]
  rfl

lemma imm_eq : ((bytes &&& 0xffffffff00000000) >>> 32).setWidth 32 = immField bytes := by
  rw [BitVec.ushiftRight_and_distrib, BitVec.setWidth_and]
  exact BitVec.and_allOnes

end

section
variable {instr : Instr} {dst src : ℕ} {imm : U32} {modi : U8}

lemma rReg_eq (i : ℕ) : rReg i = .r (Fin.ofNat 8 i : Fin 8) := rfl

/-- Registers are equal if their fields are so modulo eight. -/
lemma rReg_inj : rReg src = rReg dst ↔ Fin.ofNat 8 dst = Fin.ofNat 8 src := by
  rw [rReg_eq, rReg_eq, Store.r.injEq, Fin.val_inj, eq_comm]

/-- An operand in one of the two smaller levels. -/
lemma sources_l12Cache (hsrc : instr.src = l12Cache src modi) (himm : instr.imm = some imm) :
    instr.Sources (registerAddress (Fin.ofNat 8 src) imm modi) := by
  intro m
  unfold scratchpadSrcIx
  rw [hsrc, himm]
  unfold l12Cache registerAddress levelOf
  rw [modMemU8_eq, rReg_eq]
  by_cases h : modi &&& 3 = 0
  · rw [if_pos h, if_pos h, Option.bind_eq_bind, Option.bind_some]
    dsimp only
    rw [readR_toVm]
    rfl
  · rw [if_neg h, if_neg h, Option.bind_eq_bind, Option.bind_some]
    dsimp only
    rw [readR_toVm]
    rfl

/-- An operand at a fixed offset of the whole scratchpad. -/
lemma sources_l3 (hsrc : instr.src = .l3 .imm)
    (himm : instr.imm = some (imm &&& scratchpadL3Mask.setWidth 32)) :
    instr.Sources ⟨none, imm.setWidth 64, .l3⟩ := by
  intro m
  unfold scratchpadSrcIx
  rw [hsrc, himm, Option.bind_eq_bind, Option.bind_some]
  dsimp only
  rw [u64FromI32Imm_and_mask]
  rfl

/-- Both kinds of operands, as the source register decides. -/
lemma newLcacheInstr_sources (effect : Effect) :
    (newLcacheInstr (rReg dst) src imm modi effect).Sources
      (memoryOperand (Fin.ofNat 8 dst) (Fin.ofNat 8 src) imm modi) := by
  unfold newLcacheInstr memoryOperand
  by_cases h : rReg src = rReg dst
  · rw [if_pos h, if_pos (rReg_inj.mp h)]
    exact sources_l3 rfl rfl
  · rw [if_neg h, if_neg (fun heq => h (rReg_inj.mpr heq))]
    exact sources_l12Cache rfl rfl

lemma newLcacheInstr_effect (dstReg : Store) (effect : Effect) :
    (newLcacheInstr dstReg src imm modi effect).effect = effect := by
  unfold newLcacheInstr
  split <;> rfl

lemma newLcacheInstr_dst (dstReg : Store) (effect : Effect) :
    (newLcacheInstr dstReg src imm modi effect).dst = dstReg := by
  unfold newLcacheInstr
  split <;> rfl

/-- The operand of a float operation is addressed by a register. -/
lemma newLcacheInstr_float_sources {dstReg : Store} (hdst : rReg src ≠ dstReg) (effect : Effect) :
    (newLcacheInstr dstReg src imm modi effect).Sources
      (registerAddress (Fin.ofNat 8 src) imm modi) := by
  unfold newLcacheInstr
  rw [if_neg hdst]
  exact sources_l12Cache rfl rfl

/-- A store goes to the level its condition and its mode select. -/
lemma scratchpadDstIx_lCache (hdst : instr.dst = lCache dst modi) (himm : instr.imm = some imm)
    (m : Machine) :
    scratchpadDstIx m.toVm instr
      = some (((storeAddress (Fin.ofNat 8 dst) imm modi).byteOffset m.r).toNat / 8) := by
  have hcondition : modCondU8 modi < storeL3Condition ↔ ¬14 ≤ conditionOf modi := by
    have hfin : ∀ modi : U8, modCondU8 modi < storeL3Condition ↔ ¬14 ≤ conditionOf modi := by decide
    exact hfin modi
  unfold scratchpadDstIx
  rw [hdst, himm]
  unfold lCache storeAddress levelOf
  rw [modMemU8_eq, rReg_eq]
  by_cases h : 14 ≤ conditionOf modi
  · rw [if_pos h, if_neg (fun hlt => hcondition.mp hlt h), Option.bind_eq_bind, Option.bind_some]
    dsimp only
    rw [readR_toVm]
    rfl
  · rw [if_neg h, if_pos (hcondition.mpr h)]
    by_cases hmem : modi &&& 3 = 0
    · rw [if_pos hmem, if_pos hmem, Option.bind_eq_bind, Option.bind_some]
      dsimp only
      rw [readR_toVm]
      rfl
    · rw [if_neg hmem, if_neg hmem, Option.bind_eq_bind, Option.bind_some]
      dsimp only
      rw [readR_toVm]
      rfl

end

/-- The decoder yields an instruction that follows the operation, and its usage. -/
def Decodes (index : ℤ) (usage : Vector ℤ 8) (result : Option (Instr × Vector ℤ 8)) (op : Op) :
    Prop :=
  ∃ instr, result = some (instr, op.marks index usage) ∧ instr.Follows op

section
variable {index : ℤ} {usage : Vector ℤ 8}

/-- The chain of comparisons of this decoder is that of the operations. -/
lemma Decodes.ite {c : Prop} [Decidable c] {x y : Option (Instr × Vector ℤ 8)} {op op' : Op}
    (hx : c → Decodes index usage x op) (hy : ¬c → Decodes index usage y op') :
    Decodes index usage (if c then x else y) (if c then op else op') := by
  by_cases h : c
  · rw [if_pos h, if_pos h]
    exact hx h
  · rw [if_neg h, if_neg h]
    exact hy h

variable {dst src : ℕ} {imm : U32} {modi : U8} {effect : Effect} {op : IntOp}

/-- The arms with a register as their source. -/
lemma decodes_source {instr : Instr} (heffect : instr.effect = effect) (hdst : instr.dst = rReg dst)
    (hsrc : instr.src = rReg src)
    (hrun : ∀ vm host instr, instr.effect = effect →
      instr.execute vm host = onSource vm instr op.eval) :
    Decodes index usage (some (instr, usage.set (Fin.ofNat 8 dst) index))
      (.int op (Fin.ofNat 8 dst) (.reg (Fin.ofNat 8 src))) := by
  refine ⟨_, rfl, ?_⟩
  intro m m' ops host _ h
  obtain rfl := Option.some.inj h
  rw [hrun _ _ _ heffect]
  exact onSource_toVm hdst hsrc op.eval

/-- The arms with a register or an immediate. -/
lemma decodes_newInstr
    (hrun : ∀ vm host instr, instr.effect = effect →
      instr.execute vm host = onImmOrR vm instr op.eval) :
    Decodes index usage
      (some (newInstr (rReg dst) (rReg src) imm .none effect, usage.set (Fin.ofNat 8 dst) index))
      (.int op (Fin.ofNat 8 dst) (regOrImm (Fin.ofNat 8 dst) (Fin.ofNat 8 src) imm)) := by
  refine ⟨_, rfl, ?_⟩
  intro m m' ops host _ h
  obtain rfl := Option.some.inj h
  unfold newInstr regOrImm
  by_cases heq : rReg src = rReg dst
  · rw [if_pos heq, if_pos (rReg_inj.mp heq), hrun _ _ _ rfl]
    exact onImmOrR_immediate rfl rfl rfl op.eval
  · rw [if_neg heq, if_neg (fun h => heq (rReg_inj.mpr h)), hrun _ _ _ rfl]
    exact onImmOrR_register rfl rfl op.eval

/-- The arms with a scratchpad operand. -/
lemma decodes_memory
    (hrun : ∀ vm host instr, instr.effect = effect →
      instr.execute vm host = onScratchpad vm instr op.eval) :
    Decodes index usage
      (some (newLcacheInstr (rReg dst) src imm modi effect, usage.set (Fin.ofNat 8 dst) index))
      (.int op (Fin.ofNat 8 dst)
        (.mem (memoryOperand (Fin.ofNat 8 dst) (Fin.ofNat 8 src) imm modi))) := by
  refine ⟨_, rfl, ?_⟩
  intro m m' ops host _ h
  obtain rfl := Option.some.inj h
  rw [hrun _ _ _ (newLcacheInstr_effect _ _)]
  have hsources : (newLcacheInstr (rReg dst) src imm modi effect).Sources _ :=
    newLcacheInstr_sources effect
  have hdst : (newLcacheInstr (rReg dst) src imm modi effect).dst = .r (Fin.ofNat 8 dst : Fin 8) :=
    newLcacheInstr_dst _ _
  exact onScratchpad_toVm hdst hsources op.eval

end

/-- Every word decodes, to an instruction that follows its operation and with the usage that the
operation marks. -/
theorem decodeInstruction_decodes (bytes : U64) (index : ℤ) (usage : Vector ℤ 8) :
    Decodes index usage (decodeInstruction bytes index usage) (decodeOp bytes usage) := by
  unfold decodeInstruction decodeOp opcodeField
  dsimp only
  simp only [dst_eq, src_eq, modi_eq, imm_eq]
  -- IADD_RS, which adds its immediate to register 5 only
  refine Decodes.ite (fun _ => ?_) fun _ => ?_
  · refine ⟨_, rfl, follows_iaddRs rfl rfl rfl (congrArg Mode.shft (umod_four_u8 _)) ?_⟩
    have hfive : rReg (dstField bytes) = .r 5 ↔ Fin.ofNat 8 (dstField bytes) = 5 := by
      rw [rReg_eq, Store.r.injEq, Fin.ext_iff]
      rfl
    by_cases h : Fin.ofNat 8 (dstField bytes) = 5
    · rw [if_pos h, if_pos (hfive.mpr h)]
      rfl
    · rw [if_neg h, if_neg (fun h' => h (hfive.mp h'))]
      rfl
  -- IADD_M
  refine Decodes.ite (fun _ => ?_) fun _ => ?_
  · apply decodes_memory
    intro vm host instr h
    rw [Instr.execute, h]
    rfl
  -- ISUB_R
  refine Decodes.ite (fun _ => ?_) fun _ => ?_
  · apply decodes_newInstr
    intro vm host instr h
    rw [Instr.execute, h]
    rfl
  -- ISUB_M
  refine Decodes.ite (fun _ => ?_) fun _ => ?_
  · apply decodes_memory
    intro vm host instr h
    rw [Instr.execute, h]
    rfl
  -- IMUL_R
  refine Decodes.ite (fun _ => ?_) fun _ => ?_
  · apply decodes_newInstr
    intro vm host instr h
    rw [Instr.execute, h]
    rfl
  -- IMUL_M
  refine Decodes.ite (fun _ => ?_) fun _ => ?_
  · apply decodes_memory
    intro vm host instr h
    rw [Instr.execute, h]
    rfl
  -- IMULH_R
  refine Decodes.ite (fun _ => ?_) fun _ => ?_
  · apply decodes_source rfl rfl rfl
    intro vm host instr h
    rw [Instr.execute, h]
    rfl
  -- IMULH_M
  refine Decodes.ite (fun _ => ?_) fun _ => ?_
  · apply decodes_memory
    intro vm host instr h
    rw [Instr.execute, h]
    rfl
  -- ISMULH_R
  refine Decodes.ite (fun _ => ?_) fun _ => ?_
  · apply decodes_source rfl rfl rfl
    intro vm host instr h
    rw [Instr.execute, h]
    rfl
  -- ISMULH_M
  refine Decodes.ite (fun _ => ?_) fun _ => ?_
  · apply decodes_memory
    intro vm host instr h
    rw [Instr.execute, h]
    rfl
  -- IMUL_RCP, which does nothing where the divisor has no reciprocal
  refine Decodes.ite (fun _ => ?_) fun _ => ?_
  · refine Decodes.ite (fun _ => ⟨_, rfl, follows_imulRcp_nop rfl rfl⟩) fun hdivisor => ?_
    obtain ⟨reciprocal, hreciprocal⟩ := exists_randomxReciprocal
      (ne_zero_of_not_isZeroOrPowerOf2 (Bool.eq_false_of_not_eq_true hdivisor))
    rw [hreciprocal]
    exact ⟨_, rfl, follows_imulRcp rfl rfl⟩
  -- INEG_R
  refine Decodes.ite (fun _ => ?_) fun _ => ?_
  · exact ⟨_, rfl, follows_inegR rfl rfl⟩
  -- IXOR_R
  refine Decodes.ite (fun _ => ?_) fun _ => ?_
  · apply decodes_newInstr
    intro vm host instr h
    rw [Instr.execute, h]
    rfl
  -- IXOR_M
  refine Decodes.ite (fun _ => ?_) fun _ => ?_
  · apply decodes_memory
    intro vm host instr h
    rw [Instr.execute, h]
    rfl
  -- IROR_R
  refine Decodes.ite (fun _ => ?_) fun _ => ?_
  · apply decodes_newInstr
    intro vm host instr h
    rw [Instr.execute, h]
    rfl
  -- IROL_R
  refine Decodes.ite (fun _ => ?_) fun _ => ?_
  · apply decodes_newInstr
    intro vm host instr h
    rw [Instr.execute, h]
    rfl
  -- ISWAP_R, which does nothing on a single register
  refine Decodes.ite (fun _ => ?_) fun _ => ?_
  · by_cases h : Fin.ofNat 8 (srcField bytes) = Fin.ofNat 8 (dstField bytes)
    · have hval : ¬srcField bytes % 8 ≠ dstField bytes % 8 := not_not.mpr (congrArg Fin.val h)
      rw [if_pos h, if_neg hval]
      exact ⟨_, rfl, follows_nop rfl⟩
    · have hval : srcField bytes % 8 ≠ dstField bytes % 8 := fun hval => h (Fin.ext hval)
      rw [if_neg h, if_pos hval]
      exact ⟨_, rfl, follows_iswapR rfl rfl rfl⟩
  -- FSWAP_R of an E register from 4 on, and of an F register below
  refine Decodes.ite (fun _ => ?_) fun _ => ?_
  · have hfour : dstField bytes % 8 % 4 = dstField bytes % 4 := by omega
    rw [hfour]
    by_cases h : 4 ≤ Fin.ofNat 8 (dstField bytes)
    · have hval : dstField bytes % 8 ≥ 4 := Fin.le_def.mp h
      rw [if_pos h, if_pos hval]
      exact ⟨_, rfl, follows_fswapR_e rfl rfl⟩
    · have hval : ¬dstField bytes % 8 ≥ 4 := fun hval => h (Fin.le_def.mpr hval)
      rw [if_neg h, if_neg hval]
      exact ⟨_, rfl, follows_fswapR_f rfl rfl⟩
  -- FADD_R
  refine Decodes.ite (fun _ => ?_) fun _ => ?_
  · exact ⟨_, rfl, follows_faddR rfl rfl rfl⟩
  -- FADD_M
  refine Decodes.ite (fun _ => ?_) fun _ => ?_
  · exact ⟨_, rfl, follows_faddM (newLcacheInstr_effect _ _) (newLcacheInstr_dst _ _)
      (newLcacheInstr_float_sources (fun h => Store.noConfusion h) _)⟩
  -- FSUB_R
  refine Decodes.ite (fun _ => ?_) fun _ => ?_
  · exact ⟨_, rfl, follows_fsubR rfl rfl rfl⟩
  -- FSUB_M
  refine Decodes.ite (fun _ => ?_) fun _ => ?_
  · exact ⟨_, rfl, follows_fsubM (newLcacheInstr_effect _ _) (newLcacheInstr_dst _ _)
      (newLcacheInstr_float_sources (fun h => Store.noConfusion h) _)⟩
  -- FSCAL_R
  refine Decodes.ite (fun _ => ?_) fun _ => ?_
  · exact ⟨_, rfl, follows_fscalR rfl rfl⟩
  -- FMUL_R
  refine Decodes.ite (fun _ => ?_) fun _ => ?_
  · exact ⟨_, rfl, follows_fmulR rfl rfl rfl⟩
  -- FDIV_M
  refine Decodes.ite (fun _ => ?_) fun _ => ?_
  · exact ⟨_, rfl, follows_fdivM (newLcacheInstr_effect _ _) (newLcacheInstr_dst _ _)
      (newLcacheInstr_float_sources (fun h => Store.noConfusion h) _)⟩
  -- FSQRT_R
  refine Decodes.ite (fun _ => ?_) fun _ => ?_
  · exact ⟨_, rfl, follows_fsqrtR rfl rfl⟩
  -- CBRANCH
  refine Decodes.ite (fun _ => ?_) fun _ => ?_
  · exact ⟨_, rfl, follows_cbranch rfl rfl rfl rfl rfl⟩
  -- CFROUND
  refine Decodes.ite (fun _ => ?_) fun _ => ?_
  · exact ⟨_, rfl, follows_cfround rfl rfl rfl⟩
  -- ISTORE
  refine Decodes.ite (fun _ => ?_) fun _ => ⟨_, rfl, follows_nop rfl⟩
  exact ⟨_, rfl, follows_istore rfl rfl (scratchpadDstIx_lCache rfl rfl)⟩

end RandomXSp1.Reference
