import RandomXSp1.Vm.BranchTheorems
import RandomXSp1.Vm.OptimizedRun

/-!
# Safety of the optimized interpreter

Every program is decoded, its instruction loop halts, and no access of a run leaves its buffer:
the accessors of the model are undefined where a bound is violated, and a run is defined.
-/

namespace RandomXSp1

/-! ## Runs of the machine succeed -/

namespace Machine

section
variable {arith : LaneCall → U64} {program : List Op} (hlength : program.length = programSize)
  (hsound : TargetsSound program) {rounds : ℕ} (hrounds : 768 ≤ rounds)
  (readReg : Vector (Fin 8) 4)

lemma exists_leaveLoop (line0 line1 : Line) (m : Machine) :
    ∃ m', m.leaveLoop readReg line0 line1 = some m' := by
  obtain ⟨r, hr⟩ := m.mem.exists_datasetRead (m.datasetOffset + m.ma) m.r
  unfold leaveLoop
  dsimp only
  rw [hr]
  exact ⟨_, rfl⟩

include hlength hsound

variable (arith) in
/-- The instruction loop halts. -/
lemma exists_loop {m : Machine} (hpc : m.pc = 0) :
    ∃ m' l, Rounds arith program m l m' ∧ m'.inLoop = false ∧ l.length ≤ 768 ∧
      ∀ k : ℤ, l.countP (fun u => u.pc = k) ≤ 3 := by
  obtain ⟨m', l, hsteps, hout, hvisits⟩ := exists_rounds arith hlength hsound hpc
  refine ⟨m', l, hsteps, hout, length_le_of_rounds hlength hsteps hvisits, ?_⟩
  intro k
  by_cases hk : 0 ≤ k
  · exact (countP_pc_le hvisits hk).trans (visitLimit_le program).2
  · have hzero : l.countP (fun u => u.pc = k) = 0 := by
      rw [List.countP_eq_zero]
      intro u hu heq
      have hmem := Finset.mem_Ico.mp (pc_mem_of_rounds hlength hsteps hu).1
      rw [of_decide_eq_true heq] at hmem
      exact hk hmem.1
    rw [hzero]
    exact Nat.zero_le 3

include hrounds

variable (arith) in
lemma exists_iterationOn (line0 line1 : Line) (m : Machine) :
    ∃ m', iterationOn readReg (fun call => some (arith call)) rounds program line0 line1 m
      = some m' := by
  obtain ⟨m₁, l, hsteps, hout, hle, -⟩ := exists_loop arith hlength hsound
    (m := m.enterLoop line0 line1) rfl
  have hloop := hsteps.whileLoop_eq (by rw [hout]; exact Bool.false_ne_true) (hle.trans hrounds)
  obtain ⟨m', hleave⟩ := exists_leaveLoop readReg line0 line1 m₁
  unfold iterationOn
  rw [hloop.1]
  exact ⟨m', hleave⟩

variable (arith) in
/-- Any number of iterations succeed. -/
lemma exists_iterations (m : Machine) (count : ℕ) :
    ∃ state, iterations readReg (fun call => some (arith call)) rounds program m count
      = some state := by
  apply exists_foldlM
  intro state _ _
  obtain ⟨m', hm'⟩ := exists_iterationOn arith hlength hsound hrounds readReg
    (linesOf readReg state).1 (linesOf readReg state).2 state.1
  unfold iteration
  dsimp only
  rw [hm']
  exact ⟨_, rfl⟩

end

end Machine

namespace Optimized

/-! ## The instruction loop -/

/-- The instruction loop of a decoded program halts, whatever the lane arithmetic: it dispatches
each index at most three times, and so performs at most 768 dispatches. -/
theorem instructionLoop_halts (bytes : List U128) (hbytes : bytes.length = programBytes) :
    ∃ program, CompactProgram.fromBytes bytes = some program ∧
      ∀ (vm : Vm) (arith : LaneCall → U64), vm.scratchpad.size = scratchpadWords →
        vm.roundingMode < 4 → vm.pc = 0 →
        ∃ vm' dispatched,
          Steps inLoop (dispatch (fun call => some (arith call)) program) vm dispatched vm' ∧
          inLoop vm' = false ∧ dispatched.length ≤ 768 ∧
          ∀ k : ℤ, dispatched.countP (fun u => u.pc = k) ≤ 3 := by
  obtain ⟨program, hprogram, -, hencodes⟩ := exists_fromBytes hbytes
  refine ⟨program, hprogram, ?_⟩
  intro vm arith hsize hmode hpc
  obtain ⟨m, rfl⟩ := Machine.exists_toVm hsize hmode
  obtain ⟨m', l, hsteps, hout, hle, hcount⟩ := Machine.exists_loop arith
    (length_programOps hbytes) (targetsSound_decodeOps (instructionWords bytes)) (m := m) hpc
  refine ⟨m'.toVm, l.map Machine.toVm, ?_, hout, ?_, ?_⟩
  · exact hsteps.map Machine.toVm (fun _ => rfl) (fun u _ => dispatch_toVm hencodes _ u)
  · rw [List.length_map]
    exact hle
  · intro k
    rw [List.countP_map]
    exact hcount k

lemma instructionLoop_halts_mixed :
    ∃ program vm' dispatched,
      CompactProgram.fromBytes mixedBytes = some program ∧
      Steps inLoop (dispatch (fun _ => some 0) program) (Vm.newVm SeedMemory.noMemory) dispatched
        vm' ∧
      dispatched.length ≤ 768 := by
  obtain ⟨program, hprogram, hloop⟩ :=
    instructionLoop_halts mixedBytes length_mixedBytes
  obtain ⟨vm', dispatched, hsteps, -, hle, -⟩ := hloop (Vm.newVm SeedMemory.noMemory) (fun _ => 0)
    (Vm.size_newVm SeedMemory.noMemory) (by decide) rfl
  exact ⟨program, vm', dispatched, hprogram, hsteps, hle⟩

/-! ## Masks -/

/-- The memory mask is that of a level, if there is one. -/
def CompactInstr.Masked (instr : CompactInstr) : Prop :=
  instr.memoryMask = 0 ∨ ∃ level : Level, instr.memoryMask = level.mask.setWidth 32

section
variable {instr : CompactInstr} {effect : Effect} {dst src : U8} {imm : U64} {mode : U8}

lemma masked_of_newMemory (h : CompactInstr.newMemory effect dst src imm mode = some instr) :
    instr.Masked := by
  obtain ⟨mask, hmask, hinstr⟩ := Option.bind_eq_some_iff.mp h
  obtain rfl := Option.some.inj hinstr
  unfold memoryMask at hmask
  split at hmask
  · exact Or.inr ⟨.l1, (Option.some.inj hmask).symm⟩
  split at hmask
  · exact Or.inr ⟨.l2, (Option.some.inj hmask).symm⟩
  split at hmask
  · exact Or.inr ⟨.l3, (Option.some.inj hmask).symm⟩
  · exact absurd hmask nofun

variable {imm32 : U32} {modifier : U8} {same : Bool}

lemma masked_of_decodeMemory (h : decodeMemory effect dst src imm32 modifier same = some instr) :
    instr.Masked := by
  unfold decodeMemory at h
  split at h <;> exact masked_of_newMemory h

lemma masked_of_decodeFloatMemory
    (h : decodeFloatMemory effect dst src imm32 modifier same = some instr) : instr.Masked := by
  obtain ⟨instr', hinstr', hinstr⟩ := Option.bind_eq_some_iff.mp h
  obtain rfl := Option.some.inj hinstr
  have hmasked : instr'.Masked := masked_of_decodeMemory hinstr'
  exact hmasked

lemma masked_decodeRegOrImm (immediateEffect : Effect) :
    (decodeRegOrImm effect immediateEffect dst src imm32).Masked := by
  unfold decodeRegOrImm
  split <;> exact Or.inl rfl

end

/-- Every decoded instruction is masked. -/
def DecodesMasked (result : Option (CompactInstr × Vector ℤ 8)) : Prop :=
  ∀ pair, result = some pair → pair.1.Masked

section
variable {instr : CompactInstr} {usage : Vector ℤ 8}

lemma decodesMasked_some (h : instr.Masked) : DecodesMasked (some (instr, usage)) := by
  intro pair hpair
  obtain rfl := Option.some.inj hpair
  exact h

lemma decodesMasked_bind {result : Option CompactInstr}
    (h : ∀ instr, result = some instr → instr.Masked) :
    DecodesMasked (do return (← result, usage)) := by
  intro pair hpair
  obtain ⟨instr, hinstr, hreturn⟩ := Option.bind_eq_some_iff.mp hpair
  obtain rfl := Option.some.inj hreturn
  exact h instr hinstr

lemma masked_of_decodeInstruction {raw : U64} {index : ℤ} :
    DecodesMasked (decodeInstruction raw index usage) := by
  unfold decodeInstruction
  dsimp only
  repeat'
    first
    | refine iteInduction (motive := DecodesMasked) (fun _ => ?_) (fun _ => ?_)
    | exact decodesMasked_some (Or.inl rfl)
    | exact decodesMasked_some (masked_decodeRegOrImm _)
    | exact decodesMasked_bind fun _ => masked_of_decodeMemory
    | exact decodesMasked_bind fun _ => masked_of_decodeFloatMemory
    | exact decodesMasked_bind fun _ => masked_of_newMemory
  -- the reciprocal is computed before its instruction is built
  intro pair hpair
  obtain ⟨reciprocal, -, hreturn⟩ := Option.bind_eq_some_iff.mp hpair
  obtain rfl := Option.some.inj hreturn
  exact Or.inl rfl

lemma masked_of_decodeInstructions {index : ℤ} {words : List U64} {instrs : List CompactInstr}
    (h : decodeInstructions index usage words = some instrs) : ∀ instr ∈ instrs, instr.Masked := by
  induction words generalizing index usage instrs with
  | nil =>
    obtain rfl := Option.some.inj h
    exact fun _ hmem => absurd hmem List.not_mem_nil
  | cons raw rest ih =>
    obtain ⟨pair, hpair, hbind⟩ := Option.bind_eq_some_iff.mp h
    obtain ⟨tail, htail, hreturn⟩ := Option.bind_eq_some_iff.mp hbind
    obtain rfl := Option.some.inj hreturn
    intro instr hmem
    rcases List.mem_cons.mp hmem with rfl | hmem
    · exact masked_of_decodeInstruction pair hpair
    · exact ih htail instr hmem

lemma masked_of_fromBytes {bytes : List U128} {program : CompactProgram}
    (h : CompactProgram.fromBytes bytes = some program) :
    ∀ instr ∈ program.instructions, instr.Masked := by
  obtain ⟨-, -, hrest⟩ := Option.bind_eq_some_iff.mp h
  obtain ⟨instrs, hinstrs, hrest⟩ := Option.bind_eq_some_iff.mp hrest
  obtain ⟨-, -, hreturn⟩ := Option.bind_eq_some_iff.mp hrest
  obtain rfl := Option.some.inj hreturn
  intro instr hmem
  exact masked_of_decodeInstructions hinstrs instr (List.mem_toArray.mp hmem)

end

/-- An offset under a mask stays in the scratchpad and is a multiple of eight. -/
lemma CompactInstr.Masked.offset_le {instr : CompactInstr} (h : instr.Masked)
    (hmask : instr.memoryMask ≠ 0) (address : U64) :
    (address &&& instr.memoryMask.setWidth 64).toNat ≤ 0x1ffff8 ∧
      8 ∣ (address &&& instr.memoryMask.setWidth 64).toNat := by
  obtain ⟨level, hlevel⟩ := h.resolve_left hmask
  rw [hlevel, setWidth_levelMask]
  constructor
  · rw [BitVec.toNat_and]
    exact Nat.and_le_right.trans level.mask_le
  · have hand : (address &&& level.mask) &&& 7 = 0 := by
      rw [BitVec.and_assoc, level.mask_and_seven]
      exact BitVec.and_zero
    have hnat := congrArg BitVec.toNat hand
    rw [BitVec.toNat_and] at hnat
    apply Nat.dvd_of_mod_eq_zero
    rw [← Nat.and_two_pow_sub_one_eq_mod _ 3]
    exact hnat

section
variable {vm : Vm} {instr : CompactInstr} {offset : U64}

lemma scratchpadSrcOffset_le (hmasked : instr.Masked)
    (h : scratchpadSrcOffset vm instr = some offset) :
    offset.toNat ≤ 0x1ffff8 ∧ 8 ∣ offset.toNat := by
  obtain ⟨_, hguard, hrest⟩ := Option.bind_eq_some_iff.mp h
  obtain ⟨address, -, hreturn⟩ := Option.bind_eq_some_iff.mp hrest
  obtain rfl := Option.some.inj hreturn
  exact hmasked.offset_le (by simpa [guard] using hguard) address

lemma scratchpadDstOffset_le (hmasked : instr.Masked)
    (h : scratchpadDstOffset vm instr = some offset) :
    offset.toNat ≤ 0x1ffff8 ∧ 8 ∣ offset.toNat := by
  obtain ⟨_, hguard, hrest⟩ := Option.bind_eq_some_iff.mp h
  obtain ⟨base, -, hreturn⟩ := Option.bind_eq_some_iff.mp hrest
  obtain rfl := Option.some.inj hreturn
  exact hmasked.offset_le (by simpa [guard] using hguard) _

end

/-! ## Accesses -/

/-- What guards the accesses of a dispatch: the counter and the rounding mode are in range, the
effect succeeds, and so meets the demands of every accessor it calls, and an offset into the
scratchpad is aligned and in range. -/
structure Guarded (program : CompactProgram) (ops : LaneOps) (vm : Vm) : Prop where
  pc_nonneg : 0 ≤ vm.pc
  pc_lt : vm.pc < programSize
  mode_lt : vm.getRoundingMode < 4
  exists_instr : ∃ instr, program.instructions[vm.pc.toNat]? = some instr ∧
    (∃ vm', instr.run vm ops = some vm') ∧
    ∀ offset, scratchpadSrcOffset vm instr = some offset ∨
        scratchpadDstOffset vm instr = some offset →
      offset.toNat ≤ 0x1ffff8 ∧ 8 ∣ offset.toNat

lemma getRoundingMode_toVm_lt (m : Machine) : m.toVm.getRoundingMode < 4 := by
  show (fprcOf m.mode).setWidth 32 < (4 : U32)
  cases m.mode <;> decide

section
variable {bytes : List U128} (hbytes : bytes.length = programBytes) {program : CompactProgram}
  (hprogram : CompactProgram.fromBytes bytes = some program) {arith : LaneCall → U64}
include hbytes hprogram

variable (arith) in
/-- Any number of iterations of a run succeed. -/
lemma exists_iterations {vm : Vm} (hsize : vm.scratchpad.size = scratchpadWords)
    (hmode : vm.roundingMode < 4) {rounds : ℕ} (hrounds : 768 ≤ rounds) (count : ℕ) :
    ∃ state, iterations (fun call => some (arith call)) rounds program
      (vm.initVm program.entropy) count = some state := by
  obtain ⟨-, hentropy, hencodes⟩ := encodes_of_fromBytes hprogram
  obtain ⟨m, rfl⟩ := Machine.exists_toVm hsize hmode
  obtain ⟨state, hstate⟩ := Machine.exists_iterations arith (length_programOps hbytes)
    (targetsSound_decodeOps (instructionWords bytes)) hrounds
    (Machine.readRegOf program.entropy) (m.initVm program.entropy) count
  rw [← Machine.toVm_initVm, iterations_toVm hencodes _ rounds _ (Machine.readReg_initVm m _), hstate]
  exact ⟨_, rfl⟩

/-- A machine that the instruction loop dispatched is guarded. -/
lemma guarded_of_rounds {m m' u : Machine} {l : List Machine}
    (hsteps : Machine.Rounds arith (programOps bytes) m l m') (hu : u ∈ l) :
    Guarded program (fun call => some (arith call)) u.toVm := by
  have hencodes := (encodes_of_fromBytes hprogram).2.2
  obtain ⟨hpc, op, hop⟩ := Machine.pc_mem_of_rounds (length_programOps hbytes) hsteps hu
  have hrel := rel_instructions hencodes u.pc.toNat
  rw [hop] at hrel
  obtain ⟨u', hexec⟩ := Op.exists_exec arith op u
  refine ⟨(Finset.mem_Ico.mp hpc).1, (Finset.mem_Ico.mp hpc).2, getRoundingMode_toVm_lt u, ?_⟩
  show ∃ instr, program.instructions[u.pc.toNat]? = some instr ∧ _
  generalize hinstr : program.instructions[u.pc.toNat]? = found at hrel
  cases hrel with
  | @some instr _ hencodes =>
    have hmasked := masked_of_fromBytes hprogram instr (Array.mem_of_getElem? hinstr)
    refine ⟨instr, rfl, ⟨u'.toVm, ?_⟩, ?_⟩
    · rw [hencodes.1, hexec]
      rfl
    · intro offset hoffset
      cases hoffset with
      | inl hsrc => exact scratchpadSrcOffset_le hmasked hsrc
      | inr hdst => exact scratchpadDstOffset_le hmasked hdst

end

/-- Every iteration of a run succeeds: both of its lines lie in the scratchpad, every dispatch of
its instruction loop is guarded, and the accesses after the loop are in range as well. -/
theorem accesses_guarded (bytes : List U128) (hbytes : bytes.length = programBytes) :
    ∃ program, CompactProgram.fromBytes bytes = some program ∧
      ∀ (vm : Vm) (arith : LaneCall → U64) (rounds count : ℕ),
        vm.scratchpad.size = scratchpadWords → vm.roundingMode < 4 → 768 ≤ rounds →
        let ops : LaneOps := fun call => some (arith call)
        let start := vm.initVm program.entropy
        let readReg := readRegOffsets start
        ∃ state entry addr0 addr1 state',
          iterations ops rounds program start count = some state ∧
          enterLoop readReg state.1 state.2 = some (entry, addr0, addr1) ∧
          addr0 + 7 < scratchpadWords ∧ addr1 + 7 < scratchpadWords ∧
          (∀ u ∈ entered inLoop (dispatch ops program) rounds entry, Guarded program ops u) ∧
          iteration ops rounds program readReg start.datasetOffset state = some state' := by
  obtain ⟨program, hprogram, hentropy, hencodes⟩ := exists_fromBytes hbytes
  refine ⟨program, hprogram, ?_⟩
  intro vm arith rounds count hsize hmode hrounds
  dsimp only
  obtain ⟨m, rfl⟩ := Machine.exists_toVm hsize hmode
  have hlength := length_programOps hbytes
  have hsound := targetsSound_decodeOps (instructionWords bytes)
  rw [hentropy, ← Machine.toVm_initVm]
  have hreg := Machine.readReg_initVm m (entropyOf bytes)
  generalize Machine.readRegOf (entropyOf bytes) = readReg at hreg
  generalize m.initVm (entropyOf bytes) = m at hreg
  obtain ⟨state, hstate⟩ := Machine.exists_iterations arith hlength hsound hrounds
    readReg m count
  have hoffset := (Machine.sameSetup_of_iterations hstate).datasetOffset
  -- the iteration after these
  obtain ⟨m₁, l, hsteps, hout, hle, -⟩ := Machine.exists_loop arith hlength hsound
    (m := (state.1.withMemReg m.mx m.ma).enterLoop (Machine.linesOf readReg state).1
      (Machine.linesOf readReg state).2) rfl
  obtain ⟨m', hm'⟩ := Machine.exists_iterationOn arith hlength hsound hrounds readReg
    (Machine.linesOf readReg state).1 (Machine.linesOf readReg state).2 state.1
  have hnext := iteration_runState hencodes (fun call => some (arith call)) rounds readReg m.mx m.ma
    state
  rw [Machine.iteration, hm', hoffset] at hnext
  rw [readRegOffsets_toVm hreg]
  refine ⟨runState m.mx m.ma state, _, _, _, runState m.mx m.ma (m', 0, 0), ?_,
    enterLoop_toVm _ readReg _, (Machine.linesOf readReg state).1.index_add_seven_lt,
    (Machine.linesOf readReg state).2.index_add_seven_lt, ?_, hnext⟩
  · rw [iterations_toVm hencodes _ rounds readReg hreg, hstate]
    rfl
  · intro u hu
    have hinLoop (v : Machine) : inLoop v.toVm = v.inLoop := rfl
    have hentered := entered_map Machine.toVm hinLoop
      (fun u _ => dispatch_toVm hencodes (fun call => some (arith call)) u) rounds
    have hloop := hsteps.whileLoop_eq (by rw [hout]; exact Bool.false_ne_true) (hle.trans hrounds)
    have hmap : u ∈ l.map Machine.toVm := by
      rw [← hloop.2, ← hentered]
      exact hu
    obtain ⟨u, hmem, rfl⟩ := List.mem_map.mp hmap
    exact guarded_of_rounds hbytes hprogram hsteps hmem

lemma accesses_guarded_mixed :
    ∃ program state state' entry addr0 addr1,
      let ops : LaneOps := fun _ => some 0
      let start := (Vm.newVm SeedMemory.noMemory).initVm program.entropy
      CompactProgram.fromBytes mixedBytes = some program ∧
        iterations ops 768 program start 2047 = some state ∧
        enterLoop (readRegOffsets start) state.1 state.2 = some (entry, addr0, addr1) ∧
        (∀ u ∈ entered inLoop (dispatch ops program) 768 entry, Guarded program ops u) ∧
        iteration ops 768 program (readRegOffsets start) start.datasetOffset state = some state' := by
  obtain ⟨program, hprogram, haccesses⟩ := accesses_guarded mixedBytes length_mixedBytes
  obtain ⟨state, entry, addr0, addr1, state', hstate, hentry, -, -, hguarded, hnext⟩ :=
    haccesses (Vm.newVm SeedMemory.noMemory) (fun _ => 0) 768 2047
      (Vm.size_newVm SeedMemory.noMemory) (by decide) le_rfl
  exact ⟨program, state, state', entry, addr0, addr1, hprogram, hstate, hentry, hguarded, hnext⟩

/-! ## The dataset -/

/-- A value masked to a line of the dataset. -/
def LineAligned (address : U64) : Prop := ∃ word, address = word &&& cacheLineAlignMask

lemma LineAligned.toNat_le {address : U64} (h : LineAligned address) :
    address.toNat ≤ 2147483584 ∧ 64 ∣ address.toNat := by
  obtain ⟨word, rfl⟩ := h
  constructor
  · rw [BitVec.toNat_and]
    exact Nat.and_le_right
  · have hand : (word &&& cacheLineAlignMask) &&& 63 = 0 := by
      rw [BitVec.and_assoc, show cacheLineAlignMask &&& 63 = 0 from rfl]
      exact BitVec.and_zero
    have hnat := congrArg BitVec.toNat hand
    rw [BitVec.toNat_and] at hnat
    apply Nat.dvd_of_mod_eq_zero
    rw [← Nat.and_two_pow_sub_one_eq_mod _ 6]
    exact hnat

lemma lineAligned_initVm (vm : Vm) (entropy : Vector U64 16) :
    LineAligned (vm.initVm entropy).ma := by
  have hle := (show LineAligned (entropy[8] &&& cacheLineAlignMask) from ⟨_, rfl⟩).toNat_le.1
  refine ⟨entropy[8], ?_⟩
  apply BitVec.eq_of_toNat_eq
  show (((entropy[8] &&& cacheLineAlignMask).setWidth 32).setWidth 64).toNat = _
  rw [BitVec.toNat_setWidth, BitVec.toNat_setWidth]
  omega

lemma toNat_datasetOffset_initVm (vm : Vm) (entropy : Vector U64 16) :
    (vm.initVm entropy).datasetOffset.toNat = entropy[(13 : Fin 16)].toNat % 524288 * 64 := by
  show (entropy[(13 : Fin 16)] % (datasetExtraItems + 1) * cacheLineSize).toNat = _
  rw [BitVec.toNat_mul, BitVec.toNat_umod]
  show entropy[(13 : Fin 16)].toNat % 524288 * 64 % 2 ^ 64 = _
  omega

section
variable {ops : LaneOps} {rounds : ℕ} {program : CompactProgram}

/-- `ma` is masked before it is read, though `mx` is not masked at the start. -/
lemma lineAligned_of_iteration {readReg : Vector U8 4} {datasetOffset : U64}
    {state state' : Vm × Locals}
    (h : iteration ops rounds program readReg datasetOffset state = some state') :
    LineAligned state'.2.ma := by
  obtain ⟨entry, -, hrest⟩ := Option.bind_eq_some_iff.mp h
  obtain ⟨vm, -, hleave⟩ := Option.bind_eq_some_iff.mp hrest
  obtain ⟨r₂, -, hrest⟩ := Option.bind_eq_some_iff.mp hleave
  obtain ⟨r₃, -, hrest⟩ := Option.bind_eq_some_iff.mp hrest
  obtain ⟨r, -, hrest⟩ := Option.bind_eq_some_iff.mp hrest
  obtain ⟨vm', -, hreturn⟩ := Option.bind_eq_some_iff.mp hrest
  obtain rfl := Option.some.inj hreturn
  exact ⟨_, rfl⟩

lemma lineAligned_of_iterations {vm : Vm} {count : ℕ} {state : Vm × Locals}
    (h : iterations ops rounds program vm count = some state) (hma : LineAligned vm.ma) :
    LineAligned state.2.ma := by
  apply foldlM_preserves (P := fun state : Vm × Locals => LineAligned state.2.ma) _ _ h
  · intro state _ state' _ hstep
    exact lineAligned_of_iteration hstep
  · exact hma

end

/-- The `ma` that an iteration starts with is the one its dataset read uses: in every run the read
is of an aligned address in range. Every word that an item mixes in is the word of its cache
line. -/
theorem datasetRead_inRange :
    (∀ (ops : LaneOps) (rounds count : ℕ) (program : CompactProgram) (vm : Vm)
      (state : Vm × Locals),
      iterations ops rounds program (vm.initVm program.entropy) count = some state →
      let offset := (vm.initVm program.entropy).datasetOffset + state.2.ma
      let itemNum := offset / cacheLineSize
      64 ∣ state.2.ma.toNat ∧ state.2.ma.toNat < 2 ^ 31 ∧ 64 ∣ offset.toNat ∧
        offset.toNat ≤ 2147483648 + 33554368 - 64 ∧ itemNum.toNat ≤ 34078718 ∧
        (itemNum + 1).toNat = itemNum.toNat + 1) ∧
    (∀ (seedMem : SeedMemory) (regValue : U64) (r : Fin 8),
      let byteOffset := regValue.toNat % 4194304 * 64 + 8 * r
      SeedMemory.mixWordIndex regValue r < cacheWordCount ∧
        seedMem.mixBlockValue regValue r
          = (seedMem.blocks[byteOffset / 1024]?).bind fun block =>
              (block.toList)[byteOffset % 1024 / 8]?) := by
  constructor
  · intro ops rounds count program vm state h
    dsimp only
    obtain ⟨hle, hdvd⟩ := (lineAligned_of_iterations h (lineAligned_initVm vm _)).toNat_le
    have hoffset := toNat_datasetOffset_initVm vm program.entropy
    -- two numbers with bounds, whose sum does not wrap around
    generalize (vm.initVm program.entropy).datasetOffset = offset at hoffset
    generalize state.2.ma = ma at hle hdvd
    have hadd : (offset + ma).toNat = offset.toNat + ma.toNat := by
      rw [BitVec.toNat_add]
      omega
    have hitem : ((offset + ma) / cacheLineSize).toNat = (offset.toNat + ma.toNat) / 64 := by
      rw [BitVec.toNat_udiv, hadd]
      rfl
    refine ⟨hdvd, by omega, by omega, by omega, by omega, ?_⟩
    rw [BitVec.toNat_add, hitem]
    show ((offset.toNat + ma.toNat) / 64 + 1) % 2 ^ 64 = _
    omega
  · intro seedMem regValue r
    dsimp only
    have hindex := SeedMemory.mixWordIndex_lt regValue r.isLt
    obtain ⟨hblock, hword⟩ := SeedMemory.mixWordIndex_eq regValue r
    refine ⟨hindex, ?_⟩
    unfold SeedMemory.mixBlockValue
    dsimp only
    rw [if_pos hindex, hblock, hword]
    rfl

lemma datasetRead_inRange_mixed :
    ∃ program state,
      iterations (fun _ => some 0) 768 program
        ((Vm.newVm SeedMemory.noMemory).initVm program.entropy) 2047 = some state ∧
      64 ∣ state.2.ma.toNat := by
  obtain ⟨program, hprogram, -⟩ := exists_fromBytes length_mixedBytes
  obtain ⟨state, hstate⟩ := exists_iterations length_mixedBytes hprogram (fun _ => 0)
    (Vm.size_newVm SeedMemory.noMemory) (by decide) (le_refl 768) 2047
  exact ⟨program, state, hstate,
    (datasetRead_inRange.1 _ 768 2047 program (Vm.newVm SeedMemory.noMemory) state hstate).1⟩

end Optimized

end RandomXSp1
