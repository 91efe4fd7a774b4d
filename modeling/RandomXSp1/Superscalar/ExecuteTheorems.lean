import RandomXSp1.Superscalar.Execute

/-!
# The three execution paths agree

A decoded instruction with aligned offsets is one total step on the register file
(`ScExecInstr.step`). Every path runs these steps in program order: the reference path because
decoding preserves what an instruction does, the unchecked one because its chunks of 32 and its
pairs only bracket the program (`executeCompactUnchecked_eq`) and the installed offset of a
pair selects the handler of its two opcodes.
-/

namespace RandomXSp1.Superscalar

/-! ## What an instruction does -/

/-- The new destination value from the old one, the source and the immediate. -/
def ScExecOpcode.apply (op : ScExecOpcode) (dst src imm : U64) : U64 :=
  match op with
  | isubR => dst - src
  | ixorR => dst ^^^ src
  | iaddRs => dst + (src <<< imm.toNat)
  | imulR => dst * src
  | irorC => dst.rotateRight (imm.setWidth 32).toNat
  | iaddC => dst + imm
  | ixorC => dst ^^^ imm
  | imulhR => mulh dst src
  | ismulhR => smulh dst src
  | imulRcp => dst * imm

/-- The register at a byte offset. -/
def registerAt (offset : U8) : Fin 8 := ⟨offset.toNat / 8 % 8, Nat.mod_lt _ (by norm_num)⟩

/-- A byte offset of a register. -/
def IsRegisterOffset (offset : U8) : Prop := offset.toNat % 8 = 0 ∧ offset.toNat ≤ 8 * 8 - 8

def ScExecInstr.step (instr : ScExecInstr) (ds : Registers) : Registers :=
  let dst := registerAt instr.dstOffset
  let src := registerAt instr.srcOffset
  ds.set dst (instr.opcode.apply ds[dst] ds[src] instr.immediate)

/-- Both offsets of the instruction address registers. -/
structure ScExecInstr.Aligned (instr : ScExecInstr) : Prop where
  dst : IsRegisterOffset instr.dstOffset
  src : IsRegisterOffset instr.srcOffset

section
variable {offset : U8} {ds : Registers} {value : U64}

lemma registerAt_val (h : IsRegisterOffset offset) :
    (registerAt offset : ℕ) = offset.toNat / 8 := by
  have := h.2
  show offset.toNat / 8 % 8 = offset.toNat / 8
  omega

lemma execReadRegister_eq (h : IsRegisterOffset offset) :
    execReadRegister ds offset = some ds[registerAt offset] := by
  have hval := registerAt_val h
  unfold IsRegisterOffset at h
  rw [execReadRegister, if_pos h, Vector.getElem?_eq_getElem (by have := h.2; omega)]
  simp only [getElem_fin_eq, hval]

lemma execWriteRegister_eq (h : IsRegisterOffset offset) :
    execWriteRegister ds offset value = some (ds.set (registerAt offset) value) := by
  have hval := registerAt_val h
  unfold IsRegisterOffset at h
  rw [execWriteRegister, dif_pos h]
  simp only [hval]

lemma readRegister_eq (i : Fin 8) : readRegister ds (i : ℕ) = some ds[i] := by
  rw [readRegister, if_pos (by omega), Int.toNat_natCast,
    Vector.getElem?_eq_getElem i.isLt]
  rfl

lemma writeRegister_eq (i : Fin 8) : writeRegister ds (i : ℕ) value = some (ds.set i value) := by
  rw [writeRegister, dif_pos ⟨by omega, by rw [Int.toNat_natCast]; exact i.isLt⟩]
  simp only [Int.toNat_natCast]

end

/-! ## Each path takes the step -/

section
variable {instr : ScExecInstr} (h : instr.Aligned) (ds : Registers)
include h

lemma executeCompactInstr_eq : executeCompactInstr instr ds = some (instr.step ds) := by
  have hdst : ((instr.dstOffset.toNat : ℤ) / 8) = ((registerAt instr.dstOffset : Fin 8) : ℕ) := by
    rw [registerAt_val h.dst]
    rfl
  have hsrc : ((instr.srcOffset.toNat : ℤ) / 8) = ((registerAt instr.srcOffset : Fin 8) : ℕ) := by
    rw [registerAt_val h.src]
    rfl
  simp only [executeCompactInstr, ScExecInstr.step, hdst, hsrc, readRegister_eq, writeRegister_eq]
  cases instr.opcode <;> rfl

lemma executeCompactInstructionUnchecked_eq :
    executeCompactInstructionUnchecked ds instr = some (instr.step ds) := by
  simp only [executeCompactInstructionUnchecked, ScExecInstr.step, execReadRegister_eq h.dst,
    execReadRegister_eq h.src, execWriteRegister_eq h.dst]
  cases instr.opcode <;> rfl

lemma executeCompactInstructionKnown_eq :
    executeCompactInstructionKnown instr.opcode.toNat instr ds = some (instr.step ds) := by
  simp only [executeCompactInstructionKnown, ScExecInstr.step, execReadRegister_eq h.dst,
    execReadRegister_eq h.src, execWriteRegister_eq h.dst]
  cases instr.opcode <;> rfl

end

/-! ## The pair table -/

lemma ScExecOpcode.toNat_lt (op : ScExecOpcode) : op.toNat < 10 := by
  cases op <;> decide

/-- Row `i`, column `j` of the table holds the constants `i` and `j`. -/
lemma pairHandlers_get : ∀ i j : Fin 10,
    pairHandlers.get ⟨i * 10 + j, by omega⟩ = (i.val, j.val) := by
  decide

/-- A first instruction with the offset of its pair installed dispatches to the handler of the
two opcodes. -/
lemma executeCompactPairUnchecked_eq {first second : ScExecInstr} (hfirst : first.Aligned)
    (hsecond : second.Aligned)
    (hoffset : first.pairHandlerOffset.toNat =
      (first.opcode.toNat * 10 + second.opcode.toNat) * pairHandlerSize) (ds : Registers) :
    executeCompactPairUnchecked ds first second = some (second.step (first.step ds)) := by
  have hi := first.opcode.toNat_lt
  have hj := second.opcode.toNat_lt
  have hentry := pairHandlers_get ⟨_, hi⟩ ⟨_, hj⟩
  have hsize : 0 < pairHandlerSize := by decide
  have hbound : first.pairHandlerOffset.toNat % pairHandlerSize = 0 ∧
      first.pairHandlerOffset.toNat ≤ 100 * pairHandlerSize - pairHandlerSize := by
    rw [hoffset, Nat.mul_mod_left]
    refine ⟨rfl, ?_⟩
    simp only [pairHandlerSize]
    omega
  have hindex : first.pairHandlerOffset.toNat / pairHandlerSize =
      first.opcode.toNat * 10 + second.opcode.toNat := by
    rw [hoffset, Nat.mul_div_cancel _ hsize]
  simp only [executeCompactPairUnchecked, dif_pos hbound, hindex, hentry,
    executeCompactPairKnown, executeCompactInstructionKnown_eq hfirst,
    executeCompactInstructionKnown_eq hsecond, Option.bind_eq_bind, Option.bind_some]

/-! ## Chunks and pairs bracket the program -/

/-- Running a list of known even length before another one. -/
lemma executeRemainder_append (n : ℕ) (ds : Registers) (front back : List ScExecInstr)
    (h : front.length = 2 * n) :
    executeRemainder ds (front ++ back) =
      (executeRemainder ds front).bind fun ds => executeRemainder ds back := by
  induction n generalizing ds front with
  | zero =>
    rw [List.eq_nil_of_length_eq_zero h]
    rfl
  | succ n ih =>
    match front, h with
    | first :: second :: rest, h =>
      have hrest : rest.length = 2 * n := by
        simp only [List.length_cons] at h
        omega
      simp only [List.cons_append, executeRemainder, Option.bind_eq_bind]
      cases executeCompactPairUnchecked ds first second with
      | none => rfl
      | some ds' => exact ih ds' rest hrest

/-- Running a chunk by its index pairs is running it pair by pair. -/
lemma foldlM_index_pairs (n : ℕ) (ds : Registers) (chunk : List ScExecInstr)
    (h : chunk.length = 2 * n) :
    ((List.range n).map fun k => (2 * k, 2 * k + 1)).foldlM
        (fun ds pair => do executeCompactPairUnchecked ds (← chunk[pair.1]?) (← chunk[pair.2]?))
        ds = executeRemainder ds chunk := by
  induction n generalizing ds chunk with
  | zero =>
    rw [List.eq_nil_of_length_eq_zero h]
    rfl
  | succ n ih =>
    match chunk, h with
    | first :: second :: rest, h =>
      have hrest : rest.length = 2 * n := by
        simp only [List.length_cons] at h
        omega
      simp only [List.range_succ_eq_map, List.map_cons, List.map_map, List.foldlM_cons,
        executeRemainder, Option.bind_eq_bind, List.getElem?_cons_zero, Nat.mul_zero,
        Nat.zero_add, List.getElem?_cons_succ, Option.bind_some]
      cases executeCompactPairUnchecked ds first second with
      | none => rfl
      | some ds' =>
        rw [Option.bind_some, Option.bind_some, ← ih ds' rest hrest, List.foldlM_map,
          List.foldlM_map]
        rfl

lemma executeChunk_eq {chunk : List ScExecInstr} (h : chunk.length = 32) (ds : Registers) :
    executeChunk ds chunk = executeRemainder ds chunk :=
  foldlM_index_pairs 16 ds chunk h

/-- The chunks of 32 do not change what is run: the whole program is run in pairs. -/
theorem executeCompactUnchecked_eq (exec : List ScExecInstr) (ds : Registers) :
    executeCompactUnchecked exec ds = executeRemainder ds exec := by
  induction hlen : exec.length using Nat.strong_induction_on generalizing exec ds with
  | _ n ih =>
    rw [executeCompactUnchecked]
    split
    · rename_i hge
      have htake : (exec.take 32).length = 32 := by
        rw [List.length_take]
        omega
      have hsplit := executeRemainder_append 16 ds (exec.take 32) (exec.drop 32) htake
      rw [List.take_append_drop] at hsplit
      rw [hsplit, executeChunk_eq htake]
      cases executeRemainder ds (exec.take 32) with
      | none => rfl
      | some ds' =>
        have hdrop : (exec.drop 32).length < n := by
          rw [List.length_drop]
          omega
        exact ih _ hdrop (exec.drop 32) ds' rfl
    · rfl

/-! ## Whole programs -/

lemma foldlM_eq_some_foldl {α β : Type} {f : β → α → Option β} {g : β → α → β} {l : List α}
    (h : ∀ a ∈ l, ∀ b, f b a = some (g b a)) (b : β) : l.foldlM f b = some (l.foldl g b) := by
  induction l generalizing b with
  | nil => rfl
  | cons a l ih =>
    rw [List.foldlM_cons, h a List.mem_cons_self, List.foldl_cons]
    exact ih (fun a' ha' => h a' (List.mem_cons_of_mem _ ha')) _

/-- The register file after a decoded program. -/
def runSteps (exec : List ScExecInstr) (ds : Registers) : Registers :=
  exec.foldl (fun ds instr => instr.step ds) ds

section
variable {exec : List ScExecInstr} (h : ∀ instr ∈ exec, instr.Aligned) (ds : Registers)
include h

theorem executeCompact_eq : executeCompact exec ds = some (runSteps exec ds) :=
  foldlM_eq_some_foldl (fun instr hinstr ds => executeCompactInstr_eq (h instr hinstr) ds) ds

theorem executeRemainder_installPairHandlers :
    executeRemainder ds (installPairHandlers exec) = some (runSteps exec ds) := by
  induction exec using installPairHandlers.induct generalizing ds with
  | case1 first second rest ih =>
    have hfirst := h first (by simp)
    have hsecond := h second (by simp)
    have hi := first.opcode.toNat_lt
    have hj := second.opcode.toNat_lt
    have hoffset : (BitVec.ofNat 16
        ((first.opcode.toNat * 10 + second.opcode.toNat) * pairHandlerSize)).toNat =
        (first.opcode.toNat * 10 + second.opcode.toNat) * pairHandlerSize := by
      rw [BitVec.toNat_ofNat, Nat.mod_eq_of_lt]
      simp only [pairHandlerSize]
      omega
    -- installing the offset leaves the step of the first instruction as it is
    let head : ScExecInstr := { first with
      pairHandlerOffset := BitVec.ofNat 16
        ((first.opcode.toNat * 10 + second.opcode.toNat) * pairHandlerSize) }
    have hhead : head.Aligned := ⟨hfirst.dst, hfirst.src⟩
    have hpair := executeCompactPairUnchecked_eq hhead hsecond hoffset ds
    rw [installPairHandlers, executeRemainder, hpair]
    exact ih (fun instr hinstr => h instr (by simp [hinstr])) _
  | case2 exec hshort =>
    match exec, hshort with
    | [], _ => rfl
    | [instr], _ =>
      rw [installPairHandlers]
      · exact executeCompactInstructionUnchecked_eq (h instr (by simp)) ds
      · simp
    | first :: second :: rest, hshort => exact absurd rfl (hshort first second rest)

end

/-! ## Decoding -/

/-- The opcodes with a source register. -/
def ScOpcode.readsSource (op : ScOpcode) : Bool :=
  op == .isubR || op == .ixorR || op == .iaddRs || op == .imulR || op == .imulhR ||
    op == .ismulhR

/-- A finished instruction: registers where the opcode has them, `-1` elsewhere, and the
reciprocal of its own immediate. -/
structure ScInstr.Valid (instr : ScInstr) : Prop where
  op : instr.info.op ≠ .invalid ∧ instr.info.op ≠ .count
  dst : 0 ≤ instr.dst ∧ instr.dst < 8
  src : if instr.info.op.readsSource then 0 ≤ instr.src ∧ instr.src < 8 else instr.src = -1
  reciprocal : instr.info.op = .imulRcp →
    randomxReciprocal (instr.imm32.setWidth 64) = some instr.reciprocal

lemma toNat_offset {i : ℤ} (h0 : 0 ≤ i) (h8 : i < 8) :
    (BitVec.ofInt 8 i * 8).toNat = 8 * i.toNat := by
  obtain ⟨n, rfl⟩ := Int.eq_ofNat_of_zero_le h0
  rw [BitVec.ofInt_natCast, BitVec.toNat_mul, BitVec.toNat_ofNat, Int.toNat_natCast]
  simp only [BitVec.ofNat_eq_ofNat, BitVec.toNat_ofNat]
  omega

lemma modShift_eq (instr : ScInstr) :
    (BitVec.ofNat 64 instr.modShift).toNat = instr.modShift := by
  have := instr.modShift_lt
  rw [BitVec.toNat_ofNat]
  omega

/-- A valid instruction decodes, and the decoded step is what the reference path does. -/
theorem ScInstr.Valid.decode {instr : ScInstr} (h : instr.Valid) :
    ∃ e, ScExecInstr.decode instr = some e ∧ e.Aligned ∧
      ∀ precompute ds, executeReferenceInstr precompute instr ds = some (e.step ds) := by
  obtain ⟨hdst0, hdst8⟩ := h.dst
  have hsrc : instr.src = -1 ∨ (0 ≤ instr.src ∧ instr.src < 8) := by
    have := h.src
    split at this
    · exact Or.inr this
    · exact Or.inl this
  have hdstOffset := toNat_offset hdst0 hdst8
  -- the source offset is the source register, or register zero where there is none
  set srcOffset : U8 := if instr.src < 0 then 0 else BitVec.ofInt 8 instr.src * 8 with hsrcdef
  have hsrcOffset : srcOffset.toNat = 8 * instr.src.toNat := by
    rw [hsrcdef]
    rcases hsrc with hneg | ⟨h0, h8⟩
    · rw [hneg]
      rfl
    · rw [if_neg (not_lt.mpr h0)]
      exact toNat_offset h0 h8
  have halignedDst : IsRegisterOffset (BitVec.ofInt 8 instr.dst * 8) := by
    unfold IsRegisterOffset
    omega
  have halignedSrc : IsRegisterOffset srcOffset := by
    unfold IsRegisterOffset
    omega
  have hdst : instr.dst = ((registerAt (BitVec.ofInt 8 instr.dst * 8) : Fin 8) : ℕ) := by
    rw [registerAt_val halignedDst]
    omega
  have hread : ∀ ds, readRegister ds instr.dst =
      some ds[registerAt (BitVec.ofInt 8 instr.dst * 8)] := by
    intro ds
    rw [← readRegister_eq, ← hdst]
  have hwrite : ∀ ds value, writeRegister ds instr.dst value =
      some (ds.set (registerAt (BitVec.ofInt 8 instr.dst * 8)) value) := by
    intro ds value
    rw [← writeRegister_eq, ← hdst]
  have hreads : instr.info.op.readsSource = true →
      ∀ ds, readRegister ds instr.src = some ds[registerAt srcOffset] := by
    intro hr ds
    have hsrc' := h.src
    rw [if_pos hr] at hsrc'
    have heq : instr.src = ((registerAt srcOffset : Fin 8) : ℕ) := by
      rw [registerAt_val halignedSrc]
      omega
    rw [← readRegister_eq, ← heq]
  have hrotate : ((instr.imm32.setWidth 64).setWidth 32).toNat = instr.imm32.toNat := by
    rw [BitVec.toNat_setWidth, BitVec.toNat_setWidth]
    omega
  have finish : ∀ opcode immediate, ScExecInstr.decodeOpcode instr = some (opcode, immediate) →
      (∀ precompute ds, executeReferenceInstr precompute instr ds =
        some (ds.set (registerAt (BitVec.ofInt 8 instr.dst * 8))
          (opcode.apply ds[registerAt (BitVec.ofInt 8 instr.dst * 8)] ds[registerAt srcOffset]
            immediate))) →
      ∃ e, ScExecInstr.decode instr = some e ∧ e.Aligned ∧
        ∀ precompute ds, executeReferenceInstr precompute instr ds = some (e.step ds) := by
    intro opcode immediate hop hrun
    refine ⟨ScExecInstr.mk immediate 0 (BitVec.ofInt 8 instr.dst * 8) srcOffset opcode, ?_,
      ⟨halignedDst, halignedSrc⟩, hrun⟩
    simp only [ScExecInstr.decode, hop, Option.bind_eq_bind, Option.bind_some, guard, hdst0, hdst8,
      and_self, if_true, if_pos hsrc]
    rfl
  cases hop : instr.info.op with
  | invalid => exact absurd hop h.op.1
  | count => exact absurd hop h.op.2
  | isubR | ixorR | imulR | imulhR | ismulhR =>
    have hsource := hreads (by rw [hop]; rfl)
    refine finish _ _ (by simp only [ScExecInstr.decodeOpcode, hop]; rfl) fun precompute ds => ?_
    simp only [executeReferenceInstr, hop, hread, hsource, Option.bind_eq_bind, Option.bind_some]
    exact hwrite _ _
  | iaddRs =>
    have hsource := hreads (by rw [hop]; rfl)
    refine finish _ _ (by simp only [ScExecInstr.decodeOpcode, hop]; rfl) fun precompute ds => ?_
    simp only [executeReferenceInstr, hop, hread, hsource, Option.bind_eq_bind, Option.bind_some,
      hwrite, ScExecOpcode.apply, modShift_eq]
  | irorC =>
    refine finish _ _ (by simp only [ScExecInstr.decodeOpcode, hop]; rfl) fun precompute ds => ?_
    simp only [executeReferenceInstr, hop, hread, Option.bind_eq_bind, Option.bind_some, hwrite,
      ScExecOpcode.apply, hrotate]
  | iaddC7 | iaddC8 | iaddC9 | ixorC7 | ixorC8 | ixorC9 =>
    refine finish _ _ (by simp only [ScExecInstr.decodeOpcode, hop]; rfl) fun precompute ds => ?_
    simp only [executeReferenceInstr, hop, hread, Option.bind_eq_bind, Option.bind_some]
    exact hwrite _ _
  | imulRcp =>
    -- with or without the precomputed reciprocal the multiplier is the same
    have hreciprocal := h.reciprocal hop
    refine finish _ _ (by simp only [ScExecInstr.decodeOpcode, hop]; rfl) fun precompute ds => ?_
    simp only [executeReferenceInstr, hop, hread, hreciprocal, Option.bind_eq_bind,
      Option.bind_some, ite_self]
    exact hwrite _ _

/-- Every instruction of a valid program decodes. -/
lemma decode_program (precompute : Bool) {prog : List ScInstr} (h : ∀ instr ∈ prog, instr.Valid) :
    ∃ exec, prog.mapM ScExecInstr.decode = some exec ∧ (∀ e ∈ exec, e.Aligned) ∧
      ∀ ds, executeReference precompute prog ds = some (runSteps exec ds) := by
  induction prog with
  | nil => exact ⟨[], rfl, by simp, fun ds => rfl⟩
  | cons instr prog ih =>
    obtain ⟨e, hdecode, haligned, hstep⟩ := (h instr List.mem_cons_self).decode
    obtain ⟨exec, hexec, hall, hrun⟩ := ih fun i hi => h i (List.mem_cons_of_mem _ hi)
    refine ⟨e :: exec, ?_, ?_, ?_⟩
    · rw [List.mapM_cons, hdecode, hexec]
      rfl
    · intro i hi
      rcases List.mem_cons.mp hi with rfl | hi
      · exact haligned
      · exact hall i hi
    · intro ds
      have hnext := hrun (e.step ds)
      rw [executeReference] at hnext ⊢
      rw [List.foldlM_cons, hstep, Option.bind_eq_bind, Option.bind_some, hnext]
      rfl

/-! ## The paths agree -/

/-- The reference interpreter, the checked decoded program and the unchecked paired program
with installed handler offsets end in the same register file. -/
theorem execute_paths_agree (precompute : Bool) (prog : List ScInstr)
    (h : ∀ instr ∈ prog, instr.Valid) (ds : Registers) :
    ∃ exec ds', prog.mapM ScExecInstr.decode = some exec ∧
      executeReference precompute prog ds = some ds' ∧
      executeCompact exec ds = some ds' ∧
      executeCompactUnchecked (installPairHandlers exec) ds = some ds' := by
  obtain ⟨exec, hexec, haligned, hreference⟩ := decode_program precompute h
  refine ⟨exec, runSteps exec ds, hexec, hreference ds, executeCompact_eq haligned ds, ?_⟩
  rw [executeCompactUnchecked_eq, executeRemainder_installPairHandlers haligned]

/-- A pair and an odd last instruction. -/
def threeInstrs : List ScInstr :=
  [{ ScInstr.null with info := isubR, dst := 0, src := 1 },
    { ScInstr.null with info := irorC, dst := 1, imm32 := 7 },
    { ScInstr.null with info := imulhR, dst := 2, src := 2 }]

theorem execute_paths_agree_threeInstrs :
    ∃ exec ds', threeInstrs.mapM ScExecInstr.decode = some exec ∧
      executeReference true threeInstrs #v[0, 1, 2, 3, 4, 5, 6, 7] = some ds' ∧
      executeCompact exec #v[0, 1, 2, 3, 4, 5, 6, 7] = some ds' ∧
      executeCompactUnchecked (installPairHandlers exec) #v[0, 1, 2, 3, 4, 5, 6, 7] =
        some ds' := by
  apply execute_paths_agree
  intro instr hinstr
  simp only [threeInstrs, List.mem_cons, List.not_mem_nil, or_false] at hinstr
  rcases hinstr with rfl | rfl | rfl
  · exact ⟨by decide, by decide, by decide, by decide⟩
  · exact ⟨by decide, by decide, by decide, by decide⟩
  · exact ⟨by decide, by decide, by decide, by decide⟩

end RandomXSp1.Superscalar
