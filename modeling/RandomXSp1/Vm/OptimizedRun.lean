import RandomXSp1.Vm.Run
import RandomXSp1.Vm.OptimizedTheorems

/-!
# Runs of the optimized interpreter

A decoded program encodes the operations of its words, and the instruction loop, an iteration
and a run do to the state what they do to the machine. The optimized interpreter keeps `mx` and
`ma` in local variables during a run, so the state carries stale values of both until its end.
-/

namespace RandomXSp1.Optimized

/-! ## Programs -/

/-- The instructions encode the operations one by one. -/
def CompactProgram.Encodes (program : CompactProgram) (listing : List Op) : Prop :=
  List.Forall₂ CompactInstr.Encodes program.instructions.toList listing

/-- Every list of words decodes, as each word does. -/
lemma exists_decodeInstructions (index : ℤ) (usage : Vector ℤ 8) (words : List U64) :
    ∃ instrs, decodeInstructions index usage words = some instrs ∧
      List.Forall₂ CompactInstr.Encodes instrs (decodeOps index usage words) := by
  induction words generalizing index usage with
  | nil => exact ⟨[], rfl, .nil⟩
  | cons raw rest ih =>
    obtain ⟨instr, hinstr, hencodes⟩ := decodeInstruction_decodes raw index usage
    obtain ⟨instrs, hrest, hall⟩ := ih (index + 1) ((decodeOp raw usage).marks index usage)
    refine ⟨instr :: instrs, ?_, .cons hencodes hall⟩
    rw [decodeInstructions, hinstr, Option.bind_eq_bind, Option.bind_some]
    dsimp only
    rw [hrest]
    rfl

/-- Every generated program is decoded, and encodes the operations of its words. -/
theorem exists_fromBytes {bytes : List U128} (h : bytes.length = programBytes) :
    ∃ program, CompactProgram.fromBytes bytes = some program ∧
      program.entropy = entropyOf bytes ∧ program.Encodes (programOps bytes) := by
  obtain ⟨instrs, hinstrs, hall⟩ :=
    exists_decodeInstructions 0 (Vector.replicate 8 (-1)) (instructionWords bytes)
  have hlength : instrs.length = programSize := hall.length_eq.trans (length_programOps h)
  refine ⟨⟨entropyOf bytes, instrs.toArray⟩, ?_, rfl, hall⟩
  unfold CompactProgram.fromBytes
  rw [hinstrs, guard, if_pos h]
  show Option.bind (guard (instrs.length = programSize)) _ = _
  rw [guard, if_pos hlength]
  rfl

/-- A decoded program is one of a generated program. -/
lemma encodes_of_fromBytes {bytes : List U128} {program : CompactProgram}
    (h : CompactProgram.fromBytes bytes = some program) :
    bytes.length = programBytes ∧ program.entropy = entropyOf bytes ∧
      program.Encodes (programOps bytes) := by
  have hlength : bytes.length = programBytes := by
    by_contra hne
    unfold CompactProgram.fromBytes at h
    rw [guard, if_neg hne] at h
    exact absurd h nofun
  obtain ⟨program', hprogram', hentropy, hencodes⟩ := exists_fromBytes hlength
  obtain rfl := Option.some.inj (h.symm.trans hprogram')
  exact ⟨hlength, hentropy, hencodes⟩

/-! ## The instruction loop -/

section
variable {program : CompactProgram} {listing : List Op} (hencodes : program.Encodes listing)
  (ops : LaneOps) (rounds : ℕ)
include hencodes

/-- The instruction at an index encodes the operation there. -/
lemma rel_instructions (k : ℕ) :
    Option.Rel CompactInstr.Encodes program.instructions[k]? listing[k]? := by
  rw [← Array.getElem?_toList]
  exact rel_getElem?_of_forall₂ hencodes k

/-- An instruction of the program encodes the operation at its index. -/
lemma exists_op_of_getElem {k : ℕ} {instr : CompactInstr}
    (h : program.instructions[k]? = some instr) : ∃ op, listing[k]? = some op ∧ instr.Encodes op := by
  have hrel := rel_instructions hencodes k
  rw [h] at hrel
  generalize listing[k]? = op at hrel
  cases hrel with
  | @some _ op hop => exact ⟨op, rfl, hop⟩

/-- Each operation is encoded by the instruction at its index. -/
lemma exists_instr_of_getElem {k : ℕ} {op : Op} (h : listing[k]? = some op) :
    ∃ instr, program.instructions[k]? = some instr ∧ instr.Encodes op := by
  have hrel := rel_instructions hencodes k
  rw [h] at hrel
  generalize program.instructions[k]? = instr at hrel
  cases hrel with
  | @some instr _ hinstr => exact ⟨instr, rfl, hinstr⟩

/-- A dispatch of the interpreter is one of the machine. -/
lemma dispatch_toVm (m : Machine) :
    dispatch ops program m.toVm = (m.dispatch ops listing).map Machine.toVm := by
  unfold dispatch Machine.dispatch Machine.fetch
  by_cases hpc : 0 ≤ m.pc
  · rw [if_pos hpc, if_pos (show 0 ≤ m.toVm.pc from hpc)]
    show (program.instructions[m.pc.toNat]?).bind _ = _
    have hrel := rel_instructions hencodes m.pc.toNat
    generalize program.instructions[m.pc.toNat]? = instr at hrel
    generalize listing[m.pc.toNat]? = op at hrel
    cases hrel with
    | none => rfl
    | @some instr op h =>
      rw [Option.bind_some, h.1 m ops]
      show ((op.exec ops m).map Machine.toVm).bind _ = Option.map _ ((op.exec ops m).bind _)
      cases op.exec ops m <;> rfl
  · rw [if_neg hpc, if_neg (show ¬0 ≤ m.toVm.pc from hpc)]
    rfl

/-- So is its whole instruction loop, with the same rounds. -/
lemma loop_toVm (m : Machine) :
    whileLoop inLoop (dispatch ops program) rounds m.toVm
      = (whileLoop Machine.inLoop (Machine.dispatch ops listing) rounds m).map Machine.toVm :=
  whileLoop_map Machine.toVm (fun _ => rfl) (fun m _ => dispatch_toVm hencodes ops m) rounds m

end

/-! ## Iterations -/

section
variable (m : Machine) (line0 line1 : Machine.Line)

lemma scratch_toVm (line : Machine.Line) (i : Fin 8) :
    scratch m.toVm.scratchpad (line.index + i) = some (m.wordAt line i) := by
  show m.scratchpad.toArray[((line.word i : Fin scratchpadWords) : ℕ)]?
    = some m.scratchpad[line.word i]
  rw [Vector.getElem?_toArray]
  exact Vector.getElem?_eq_getElem (line.word i).isLt

/-- The reads of the two lines are in bounds, and load what the machine loads. -/
lemma loadRegisters_toVm :
    loadRegisters m.toVm line0.index line1.index = some (m.loadRegisters line0 line1).toVm := by
  unfold loadRegisters
  rw [updateEach_eq (f := fun i x => x ^^^ m.wordAt line0 i), Option.bind_eq_bind,
    Option.bind_some, updateEach_eq (f := fun i _ => lanesOfWord (m.wordAt line1 (i.castAdd 4))),
    Option.bind_eq_bind, Option.bind_some,
    updateEach_eq (f := fun i _ => m.maskE (lanesOfWord (m.wordAt line1 (i.natAdd 4)))),
    Option.bind_some]
  · rfl
  · intro i _
    have hword := scratch_toVm m line1 (i.natAdd 4)
    rw [Fin.val_natAdd, Nat.add_comm 4, ← Nat.add_assoc] at hword
    rw [hword]
    rfl
  · intro i _
    rw [show line1.index + (i : ℕ) = line1.index + (i.castAdd 4 : Fin 8) from rfl, scratch_toVm]
    rfl
  · intro i x
    rw [scratch_toVm]
    rfl

/-- A write within a line is in bounds. -/
lemma setScratch_eq (scratchpad : Vector U64 scratchpadWords) (line : Machine.Line) (i : Fin 8)
    (value : U64) :
    setScratch scratchpad.toArray (line.index + i) value
      = some (scratchpad.setFin (line.word i) value).toArray := by
  have hlt : line.index + i < scratchpad.toArray.size := by
    rw [Vector.size_toArray]
    exact (line.word i).isLt
  unfold setScratch
  rw [if_pos hlt]
  apply congrArg some
  exact dif_pos hlt

/-- The loop over the integer registers fills the first line. -/
lemma storeIntegers_eq (line : Machine.Line) (r : Vector U64 8)
    (scratchpad : Vector U64 scratchpadWords) :
    (List.finRange 8).foldlM (fun scratchpad (i : Fin 8) =>
        setScratch scratchpad (line.index + i) r[i]) scratchpad.toArray
      = some (Machine.storeIntegers line r scratchpad).toArray :=
  foldlM_eq_foldl Vector.toArray (fun scratchpad i => setScratch_eq scratchpad line i r[i]) _ _

/-- The loop over the two-lane registers fills the other one, low lanes first. -/
lemma storeFloats_eq (line : Machine.Line) (f : Vector M128d 4)
    (scratchpad : Vector U64 scratchpadWords) :
    (List.finRange 4).foldlM (fun scratchpad (i : Fin 4) => do
        let ix := line.index + 2 * i
        let scratchpad ← setScratch scratchpad ix f[i].low
        setScratch scratchpad (ix + 1) f[i].high) scratchpad.toArray
      = some (Machine.storeFloats line f scratchpad).toArray := by
  apply foldlM_eq_foldl Vector.toArray
  intro scratchpad i
  have hlow := setScratch_eq scratchpad line (Machine.lowWord i) f[i].low
  have hhigh := setScratch_eq (scratchpad.set (line.word (Machine.lowWord i)) f[i].low) line
    (Machine.highWord i) f[i].high
  dsimp only [Machine.lowWord, Machine.highWord] at hlow hhigh ⊢
  rw [hlow]
  exact hhigh

/-- Both lines are stored as the machine stores them. -/
lemma storeRegisters_toVm :
    storeRegisters m.toVm line0.index line1.index = some (m.storeRegisters line0 line1).toVm := by
  have hintegers := storeIntegers_eq line1 m.r m.scratchpad
  have hfloats := storeFloats_eq line0 (Vector.zipWith M128d.xor m.f m.e)
    (Machine.storeIntegers line1 m.r m.scratchpad)
  unfold storeRegisters
  show Option.bind (List.foldlM _ m.scratchpad.toArray _) _ = _
  rw [show m.toVm.r = m.r from rfl, hintegers, Option.bind_some]
  show Option.bind (List.foldlM _ _ _) _ = _
  rw [show m.toVm.f = m.f from rfl, show m.toVm.e = m.e from rfl, hfloats]
  rfl

variable (readReg : Vector (Fin 8) 4)

/-- The scratchpad addresses are masked to the start of a line. -/
lemma lineOf_index (spAddr mix : U32) :
    (((spAddr ^^^ mix) &&& scratchpadL3MaskU32) >>> 3).toNat
      = (Machine.lineOf spAddr mix).index := rfl

/-- Entering the loop mixes the addresses and loads both lines. -/
lemma enterLoop_toVm (locals : Locals) :
    enterLoop (readReg.map intOffset) m.toVm locals
      = let lines := Machine.linesOf readReg (m, locals.spAddr0, locals.spAddr1)
        some ((m.enterLoop lines.1 lines.2).toVm, lines.1.index, lines.2.index) := by
  unfold enterLoop
  rw [getElem_map_fin, getElem_map_fin, r_toVm, r_toVm, Option.bind_eq_bind,
    Option.bind_some, Option.bind_some]
  dsimp only [spAddresses]
  rw [lineOf_index, lineOf_index, loadRegisters_toVm]
  rfl

/-- Leaving it reads the dataset and stores the registers; the local `mx` and `ma` stand for those
of the state. -/
lemma leaveLoop_toVm (mx ma : U64) (spAddr0 spAddr1 : U32) :
    leaveLoop (readReg.map intOffset) m.datasetOffset ⟨m.mx, m.ma, spAddr0, spAddr1⟩
        line0.index line1.index (m.withMemReg mx ma).toVm
      = (m.leaveLoop readReg line0 line1).map fun m' =>
          ((m'.withMemReg mx ma).toVm, ⟨m'.mx, m'.ma, 0, 0⟩) := by
  unfold leaveLoop
  rw [getElem_map_fin, getElem_map_fin, r_toVm, r_toVm, Option.bind_eq_bind,
    Option.bind_some, Option.bind_some]
  show Option.bind (m.mem.datasetRead (m.datasetOffset + m.ma) m.r) _ = _
  unfold Machine.leaveLoop
  show _ = Option.map _ (Option.bind _ _)
  cases m.mem.datasetRead (m.datasetOffset + m.ma) m.r with
  | none => rfl
  | some r =>
    have hstore := storeRegisters_toVm ({ m with r }.withMemReg mx ma) line0 line1
    rw [Option.bind_some, Option.bind_some]
    show Option.bind (storeRegisters ({ m with r }.withMemReg mx ma).toVm _ _) _ = _
    rw [hstore]
    rfl

end

/-! ## Runs -/

/-- The byte offsets of the address registers are computed once for all iterations. -/
lemma readRegOffsets_toVm {m : Machine} {readReg : Vector (Fin 8) 4}
    (hreg : m.readReg = readReg.map Fin.val) :
    readRegOffsets m.toVm = readReg.map intOffset := by
  unfold readRegOffsets
  rw [show m.toVm.readReg = m.readReg from rfl, hreg, Vector.map_map]
  rfl

/-- The state of an iteration, with the stale memory registers of the machine. -/
def runState (mx ma : U64) (state : Machine × U32 × U32) : Vm × Locals :=
  ((state.1.withMemReg mx ma).toVm, ⟨state.1.mx, state.1.ma, state.2.1, state.2.2⟩)

section
variable {program : CompactProgram} {listing : List Op} (hencodes : program.Encodes listing)
  (ops : LaneOps) (rounds : ℕ) (readReg : Vector (Fin 8) 4) (mx ma : U64)
include hencodes

/-- An iteration from its instruction loop on; the loop leaves the values that the local
variables hold unchanged. -/
lemma loop_leaveLoop_toVm (m : Machine) (line0 line1 : Machine.Line) (spAddr0 spAddr1 : U32) :
    ((whileLoop inLoop (dispatch ops program) rounds
        ((m.withMemReg mx ma).enterLoop line0 line1).toVm).bind
        (leaveLoop (readReg.map intOffset) m.datasetOffset ⟨m.mx, m.ma, spAddr0, spAddr1⟩
          line0.index line1.index))
      = (Machine.iterationOn readReg ops rounds listing line0 line1 m).map fun m' =>
          runState mx ma (m', 0, 0) := by
  unfold Machine.iterationOn
  show (whileLoop inLoop _ rounds ((m.enterLoop line0 line1).withMemReg mx ma).toVm).bind _
    = Option.map _ (Option.bind _ _)
  rw [loop_toVm hencodes, Machine.loop_withMemReg]
  cases hloop : whileLoop Machine.inLoop (Machine.dispatch ops listing) rounds
      (m.enterLoop line0 line1) with
  | none => rfl
  | some m₁ =>
    have hsame := Machine.sameConfiguration_of_steps (exists_steps_of_whileLoop hloop).1
    have hleave := leaveLoop_toVm m₁ line0 line1 readReg mx ma spAddr0 spAddr1
    rw [hsame.datasetOffset, hsame.mx, hsame.ma] at hleave
    exact hleave

/-- An iteration of the interpreter is one of the machine, which has no locals. -/
lemma iteration_runState (state : Machine × U32 × U32) :
    iteration ops rounds program (readReg.map intOffset) state.1.datasetOffset
        (runState mx ma state)
      = (Machine.iteration readReg ops rounds listing state).map (runState mx ma) := by
  unfold iteration runState
  dsimp only
  rw [enterLoop_toVm]
  dsimp only
  rw [Option.bind_eq_bind, Option.bind_some]
  refine (loop_leaveLoop_toVm hencodes ops rounds readReg mx ma state.1 _ _ _ _).trans ?_
  unfold Machine.iteration
  rw [Option.map_map]
  rfl

/-- So is a run of them, whose locals start out from the state. -/
lemma iterations_toVm {m : Machine} (hreg : m.readReg = readReg.map Fin.val) (count : ℕ) :
    iterations ops rounds program m.toVm count
      = (Machine.iterations readReg ops rounds listing m count).map (runState m.mx m.ma) := by
  have hloop : ∀ (l : List ℕ) (state : Machine × U32 × U32),
      state.1.datasetOffset = m.datasetOffset →
      l.foldlM (fun state _ => iteration ops rounds program (readReg.map intOffset)
          m.datasetOffset state) (runState m.mx m.ma state)
        = (l.foldlM (fun state _ => Machine.iteration readReg ops rounds listing state) state).map
            (runState m.mx m.ma) := by
    intro l
    induction l with
    | nil =>
      intro state _
      rfl
    | cons _ l ih =>
      intro state hoffset
      rw [List.foldlM_cons, List.foldlM_cons, ← hoffset,
        iteration_runState hencodes ops rounds readReg]
      cases hstep : Machine.iteration readReg ops rounds listing state with
      | none => rfl
      | some state' =>
        have hoffset' := (Machine.sameSetup_of_iteration hstep).datasetOffset
        rw [hoffset]
        exact ih state' (hoffset'.trans hoffset)
  unfold iterations Machine.iterations
  rw [readRegOffsets_toVm hreg]
  exact hloop (List.range count) (m, m.mx.setWidth 32, m.ma.setWidth 32) rfl

end

section
variable (ops : LaneOps) (rounds : ℕ)

/-- A run of the optimized interpreter is a run of the machine. -/
theorem run_toVm (m : Machine) (seed : Aes.State) :
    run ops rounds m.toVm seed = (m.run ops rounds seed).map Machine.toVm := by
  obtain ⟨program, hprogram, hentropy, hencodes⟩ :=
    exists_fromBytes (length_genProgramAes4rx4 seed)
  unfold run Machine.run
  rw [hprogram, Option.bind_eq_bind, Option.bind_some]
  dsimp only
  rw [hentropy, ← Machine.toVm_initVm,
    iterations_toVm hencodes ops rounds _ (Machine.readReg_initVm m _)]
  show Option.bind (Option.map _ _) _ = Option.map _ (Option.bind _ _)
  cases Machine.iterations _ ops rounds _ _ programIterations <;> rfl

end

end RandomXSp1.Optimized
