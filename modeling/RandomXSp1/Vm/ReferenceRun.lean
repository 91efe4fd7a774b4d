import RandomXSp1.Vm.Hash
import RandomXSp1.Vm.OptimizedRun
import RandomXSp1.Vm.ReferenceTheorems

/-!
# Runs of the reference interpreter

The reference interpreter does to the state what the machine does, as long as the lane arithmetic
of the machine is defined and the host agrees with it. It keeps `mx` and `ma` in the state and
looks the registers that mix the addresses up in it.
-/

namespace RandomXSp1.Reference

/-! ## Programs -/

/-- The instructions follow the operations one by one. -/
def Program.Follows (prog : Program) (listing : List Op) : Prop :=
  List.Forall₂ Instr.Follows prog.program.toList listing

/-- Every list of words decodes, as each word does. -/
lemma exists_decodeInstructions (index : ℤ) (usage : Vector ℤ 8) (words : List U64) :
    ∃ instrs, decodeInstructions index usage words = some instrs ∧
      List.Forall₂ Instr.Follows instrs (decodeOps index usage words) := by
  induction words generalizing index usage with
  | nil => exact ⟨[], rfl, .nil⟩
  | cons raw rest ih =>
    obtain ⟨instr, hinstr, hfollows⟩ := decodeInstruction_decodes raw index usage
    obtain ⟨instrs, hrest, hall⟩ := ih (index + 1) ((decodeOp raw usage).marks index usage)
    refine ⟨instr :: instrs, ?_, .cons hfollows hall⟩
    rw [decodeInstructions, hinstr, Option.bind_eq_bind, Option.bind_some]
    dsimp only
    rw [hrest]
    rfl

/-- Every generated program is decoded, and follows the operations of its words. -/
theorem exists_fromBytes {bytes : List U128} (h : bytes.length = programBytes) :
    ∃ prog, Program.fromBytes bytes = some prog ∧
      prog.entropy = entropyOf bytes ∧ prog.Follows (programOps bytes) := by
  obtain ⟨instrs, hinstrs, hall⟩ :=
    exists_decodeInstructions 0 (Vector.replicate 8 (-1)) (instructionWords bytes)
  have hle : 8 ≤ bytes.length := by
    rw [h]
    decide
  refine ⟨⟨entropyOf bytes, instrs.toArray⟩, ?_, rfl, hall⟩
  unfold Program.fromBytes
  rw [hinstrs, guard, if_pos hle]
  rfl

/-! ## The instruction loop -/

section
variable {host : LaneCall → U64} {ops : LaneOps} (hagrees : Agrees host ops) {rounds : ℕ}
include hagrees

section
variable {prog : Program} {listing : List Op} (hfollows : prog.Follows listing)
include hfollows

/-- A dispatch follows one of the machine that has its lane results. -/
lemma dispatch_follows {m m' : Machine} (h : m.dispatch ops listing = some m') :
    dispatch host prog m.toVm = some m'.toVm := by
  obtain ⟨op, m₁, hfetch, hexec, rfl⟩ := Machine.dispatch_eq_some_iff.mp h
  unfold Machine.fetch at hfetch
  split at hfetch
  · rename_i hpc
    have hrel := rel_getElem?_of_forall₂ hfollows m.pc.toNat
    rw [hfetch, Array.getElem?_toList] at hrel
    unfold dispatch
    rw [if_pos (show 0 ≤ m.toVm.pc from hpc)]
    show Option.bind prog.program[m.pc.toNat]? _ = _
    generalize prog.program[m.pc.toNat]? = found at hrel
    cases hrel with
    | @some instr _ hinstr =>
      rw [Option.bind_some, hinstr m m₁ ops host hagrees hexec]
      rfl
  · exact absurd hfetch nofun

/-- So does the instruction loop. -/
lemma loop_follows {m m' : Machine}
    (h : whileLoop Machine.inLoop (Machine.dispatch ops listing) rounds m = some m') :
    whileLoop inLoop (dispatch host prog) rounds m.toVm = some m'.toVm :=
  whileLoop_follows Machine.toVm (fun _ => rfl)
    (fun _ _ _ hstep => dispatch_follows hagrees hfollows hstep) h

end

end

/-! ## Iterations -/

section
variable (m : Machine) {readReg : Vector (Fin 8) 4} (hreg : m.readReg = readReg.map Fin.val)
include hreg

/-- The configured registers are indexed without a panic. -/
lemma readConfigured_toVm (k : Fin 4) : readConfigured m.toVm k = some m.r[readReg[k]] := by
  unfold readConfigured
  show m.r[m.readReg[k]]? = some m.r[readReg[k]]
  rw [hreg, show (readReg.map Fin.val)[k] = (readReg[k] : ℕ) from Vector.getElem_map Fin.val k.isLt]
  exact Vector.getElem?_eq_getElem (readReg[k]).isLt

omit hreg in
lemma udiv_eight (x : U32) : x / (8 : U32) = x >>> 3 := by
  apply BitVec.eq_of_toNat_eq
  rw [BitVec.toNat_udiv, BitVec.toNat_ushiftRight, Nat.shiftRight_eq_div_pow]
  rfl

/-- This interpreter divides the addresses where the other one shifts them. -/
lemma enterLoop_toVm (spAddr0 spAddr1 : U32) :
    enterLoop m.toVm spAddr0 spAddr1
      = let lines := Machine.linesOf readReg (m, spAddr0, spAddr1)
        some ((m.enterLoop lines.1 lines.2).toVm, lines.1.index, lines.2.index) := by
  unfold enterLoop
  rw [readConfigured_toVm m hreg, readConfigured_toVm m hreg, Option.bind_eq_bind,
    Option.bind_some, Option.bind_some]
  dsimp only
  rw [udiv_eight, udiv_eight, Optimized.lineOf_index, Optimized.lineOf_index]
  show Option.bind (Optimized.loadRegisters m.toVm _ _) _ = _
  rw [Optimized.loadRegisters_toVm]
  rfl

/-- It keeps `mx` and `ma` in the state. -/
lemma leaveLoop_toVm (line0 line1 : Machine.Line) :
    leaveLoop line0.index line1.index m.toVm
      = (m.leaveLoop readReg line0 line1).map Machine.toVm := by
  unfold leaveLoop
  rw [readConfigured_toVm m hreg, readConfigured_toVm m hreg, Option.bind_eq_bind,
    Option.bind_some, Option.bind_some]
  show Option.bind (m.mem.datasetRead (m.datasetOffset + m.ma) m.r) _ = _
  unfold Machine.leaveLoop
  show _ = Option.map _ (Option.bind _ _)
  cases m.mem.datasetRead (m.datasetOffset + m.ma) m.r with
  | none => rfl
  | some r =>
    have hstore := Optimized.storeRegisters_toVm
      { m with
        r
        mx := m.ma
        ma := (m.mx ^^^ (m.r[readReg[2]] ^^^ m.r[readReg[3]])) &&& cacheLineAlignMask } line0 line1
    rw [Option.bind_some, Option.bind_some]
    exact hstore

end

section
variable {host : LaneCall → U64} {ops : LaneOps} (hagrees : Agrees host ops) {rounds : ℕ}
include hagrees

section
variable {prog : Program} {listing : List Op} (hfollows : prog.Follows listing)
  {readReg : Vector (Fin 8) 4}
include hfollows

/-- The state of an iteration is that of the machine, whose mixing registers are known. -/
def Holds (readReg : Vector (Fin 8) 4) (state : Machine × U32 × U32) (held : Vm × U32 × U32) :
    Prop :=
  held = (state.1.toVm, state.2) ∧ state.1.readReg = readReg.map Fin.val

/-- An iteration keeps the two in step. -/
lemma iteration_follows {state state' : Machine × U32 × U32} {held : Vm × U32 × U32}
    (hholds : Holds readReg state held)
    (h : Machine.iteration readReg ops rounds listing state = some state') :
    ∃ held', iteration host rounds prog held = some held' ∧ Holds readReg state' held' := by
  obtain ⟨rfl, hreg⟩ := hholds
  have hreg' := (Machine.sameSetup_of_iteration h).readReg.trans hreg
  obtain ⟨m', hm', rfl⟩ := Option.map_eq_some_iff.mp h
  obtain ⟨m₁, hloop, hleave⟩ := Machine.iterationOn_eq_some hm'
  have hreg₁ : m₁.readReg = readReg.map Fin.val :=
    (Machine.sameConfiguration_of_steps (exists_steps_of_whileLoop hloop).1).readReg.trans hreg
  refine ⟨_, ?_, rfl, hreg'⟩
  unfold iteration
  dsimp only
  rw [enterLoop_toVm state.1 hreg]
  dsimp only
  rw [Option.bind_eq_bind, Option.bind_some]
  dsimp only
  rw [loop_follows hagrees hfollows hloop, Option.bind_eq_bind, Option.bind_some,
    leaveLoop_toVm m₁ hreg₁, hleave]
  rfl

/-- So does any number of them. -/
lemma iterations_follows {m : Machine} (hreg : m.readReg = readReg.map Fin.val) {count : ℕ}
    {state : Machine × U32 × U32}
    (h : Machine.iterations readReg ops rounds listing m count = some state) :
    ∃ held, (List.range count).foldlM (fun state _ => iteration host rounds prog state)
        (m.toVm, m.mx.setWidth 32, m.ma.setWidth 32) = some held ∧ Holds readReg state held :=
  foldlM_follows
    (fun _ _ _ _ hholds hstep => iteration_follows hagrees hfollows hholds hstep) ⟨rfl, hreg⟩ h

end

/-- A run of the reference interpreter follows the run of the machine. -/
theorem run_follows {m m' : Machine} {seed : Aes.State} (h : m.run ops rounds seed = some m') :
    run host rounds m.toVm seed = some m'.toVm := by
  obtain ⟨prog, hprog, hentropy, hfollows⟩ := exists_fromBytes (length_genProgramAes4rx4 seed)
  obtain ⟨spAddrs, hstate⟩ := Machine.run_eq_some h
  obtain ⟨held, hheld, rfl, -⟩ :=
    iterations_follows hagrees hfollows (Machine.readReg_initVm m _) hstate
  unfold run
  rw [hprog, Option.bind_eq_bind, Option.bind_some]
  dsimp only
  rw [hentropy, ← Machine.toVm_initVm]
  generalize m.initVm (entropyOf (Aes.genProgramAes4rx4 seed programBytes)) = start at hheld
  rw [show start.toVm.mx = start.mx from rfl, show start.toVm.ma = start.ma from rfl, hheld]
  rfl

end

end RandomXSp1.Reference
