import RandomXSp1.Checked
import RandomXSp1.Vm.DifferentialAudit
import RandomXSp1.Vm.RoundingTheorems

/-!
# What the differential audit shows

The audit neither misses a divergence nor invents one: if it passes, both interpreters have the hash
it returns, on any host; and where the lane arithmetic of the host is correctly rounded, it passes
on every input.
-/

namespace RandomXSp1

/-! ## Lane arithmetic that is defined on more calls -/

section
variable {ops ops' : LaneOps} (hops : ∀ call value, ops call = some value → ops' call = some value)
include hops

lemma LaneOps.both_mono {call : U64 → U64 → LaneCall} {x y z : M128d}
    (h : ops.both call x y = some z) : ops'.both call x y = some z := by
  obtain ⟨low, hlow, h⟩ := Option.bind_eq_some_iff.mp h
  obtain ⟨high, hhigh, h⟩ := Option.bind_eq_some_iff.mp h
  unfold LaneOps.both
  rw [hops _ _ hlow, hops _ _ hhigh]
  exact h

lemma LaneOps.bothSqrt_mono {mode : SoftFp.RoundingMode} {x z : M128d}
    (h : ops.bothSqrt mode x = some z) : ops'.bothSqrt mode x = some z := by
  obtain ⟨low, hlow, h⟩ := Option.bind_eq_some_iff.mp h
  obtain ⟨high, hhigh, h⟩ := Option.bind_eq_some_iff.mp h
  unfold LaneOps.bothSqrt
  rw [hops _ _ hlow, hops _ _ hhigh]
  exact h

lemma Op.exec_mono {op : Op} {m m' : Machine} (h : op.exec ops m = some m') :
    op.exec ops' m = some m' := by
  cases op
  case addF | subF | mulE | divE =>
    obtain ⟨z, hz, h⟩ := Option.map_eq_some_iff.mp h
    exact Option.map_eq_some_iff.mpr ⟨z, LaneOps.both_mono hops hz, h⟩
  case sqrtE =>
    obtain ⟨z, hz, h⟩ := Option.map_eq_some_iff.mp h
    exact Option.map_eq_some_iff.mpr ⟨z, LaneOps.bothSqrt_mono hops hz, h⟩
  all_goals exact h

lemma Machine.dispatch_mono {listing : List Op} {m m' : Machine}
    (h : m.dispatch ops listing = some m') : m.dispatch ops' listing = some m' := by
  obtain ⟨op, m₁, hfetch, hexec, hm'⟩ := Machine.dispatch_eq_some_iff.mp h
  exact Machine.dispatch_eq_some_iff.mpr ⟨op, m₁, hfetch, Op.exec_mono hops hexec, hm'⟩

end

namespace DifferentialAudit

/-! ## Assertions -/

lemma assertVmState_self (vm : Vm) : assertVmState vm vm = some () := by
  simp [assertVmState, guard]

lemma pc_eq_of_assertVmState {reference compact : Vm} {u : Unit}
    (h : assertVmState reference compact = some u) : reference.pc = compact.pc := by
  unfold assertVmState at h
  obtain ⟨_, -, h⟩ := Option.bind_eq_some_iff.mp h
  obtain ⟨_, hpc, -⟩ := Option.bind_eq_some_iff.mp h
  exact guard_eq_some.mp hpc

/-! ## A passing audit -/

section
variable {host : LaneCall → U64} {ops : LaneOps} {rounds : ℕ} {blake2b : Blake2b}

lemma finishIteration_eq (vm : Vm) (addr0 addr1 : ℕ) :
    finishIteration vm addr0 addr1 = Reference.leaveLoop addr0 addr1 vm := rfl

lemma enterLoop_eq (vm : Vm) (spAddr0 spAddr1 : U32) :
    Reference.enterLoop vm spAddr0 spAddr1 = (prepareIteration vm spAddr0 spAddr1).map
      fun prepared => ({ prepared.1 with pc := 0 }, prepared.2.1.toNat, prepared.2.2.toNat) := by
  unfold Reference.enterLoop prepareIteration
  cases Reference.readConfigured vm 0 with
  | none => rfl
  | some r0 =>
    cases Reference.readConfigured vm 1 with
    | none => rfl
    | some r1 =>
      simp only [Option.bind_eq_bind, Option.bind_some, Reference.udiv_eight]
      cases Reference.loadRegisters vm _ _ <;> rfl

section
variable {prog : Reference.Program} {program : Optimized.CompactProgram}

/-- Either machine makes the step of its own interpreter. -/
lemma dispatch_eq_some {reference compact reference' compact' : Vm}
    (h : dispatch host ops prog program (reference, compact) = some (reference', compact')) :
    Reference.dispatch host prog reference = some reference' ∧
      Optimized.dispatch ops program compact = some compact' ∧ reference'.pc = compact'.pc := by
  unfold dispatch at h
  obtain ⟨_, hpc, h⟩ := Option.bind_eq_some_iff.mp h
  obtain ⟨referenceInstr, hreferenceInstr, h⟩ := Option.bind_eq_some_iff.mp h
  obtain ⟨compactInstr, hcompactInstr, h⟩ := Option.bind_eq_some_iff.mp h
  obtain ⟨reference₁, hreference, h⟩ := Option.bind_eq_some_iff.mp h
  obtain ⟨compact₁, hcompact, h⟩ := Option.bind_eq_some_iff.mp h
  obtain ⟨_, hassert, h⟩ := Option.bind_eq_some_iff.mp h
  cases h
  rw [guard_eq_some.mp hpc] at hcompactInstr
  refine ⟨?_, ?_, congrArg (· + 1) (pc_eq_of_assertVmState hassert)⟩
  · unfold Reference.dispatch
    rw [hreferenceInstr, Option.bind_eq_bind, Option.bind_some, hreference]
    rfl
  · unfold Optimized.dispatch
    rw [hcompactInstr, Option.bind_eq_bind, Option.bind_some, hcompact]
    rfl

lemma loop_eq_some {reference compact reference' compact' : Vm}
    (h : whileLoop inLoop (dispatch host ops prog program) rounds (reference, compact)
      = some (reference', compact')) (hpc : reference.pc = compact.pc) :
    whileLoop Reference.inLoop (Reference.dispatch host prog) rounds reference = some reference' ∧
      whileLoop Optimized.inLoop (Optimized.dispatch ops program) rounds compact
        = some compact' := by
  have hstep {vms vms' : Vm × Vm}
      (hs : dispatch host ops prog program vms = some vms') := dispatch_eq_some hs
  constructor
  · have hcond (vms : Vm × Vm) : Reference.inLoop vms.1 = inLoop vms := rfl
    exact whileLoop_follows Prod.fst hcond (fun _ _ _ hs => (hstep hs).1) h
  · -- the compact machine goes on as long as the reference, whose counter it shares
    have hcond (vms : Vm × Vm) (vm : Vm) (hvm : vm = vms.2 ∧ vms.1.pc = vm.pc) :
        Optimized.inLoop vm = inLoop vms := by
      show decide _ = decide _
      rw [hvm.2]
    have hbody (vms : Vm × Vm) (vm : Vm) (vms' : Vm × Vm) (hvm : vm = vms.2 ∧ vms.1.pc = vm.pc)
        (_ : inLoop vms) (hs : dispatch host ops prog program vms = some vms') :
        ∃ vm', Optimized.dispatch ops program vm = some vm' ∧ vm' = vms'.2
          ∧ vms'.1.pc = vm'.pc := by
      obtain ⟨-, hcompact, hpc⟩ := hstep hs
      exact ⟨vms'.2, hvm.1 ▸ hcompact, rfl, hpc⟩
    obtain ⟨vm', hloop, rfl, -⟩ := whileLoop_related hcond hbody ⟨rfl, hpc⟩ h
    exact hloop

lemma iteration_eq_some {pair pair' : Pair}
    (h : iteration host ops rounds prog program pair = some pair') :
    Reference.iteration host rounds prog pair.1 = some pair'.1 ∧
      ∀ {listing : List Op} {readReg : Vector (Fin 8) 4} {state : Machine × U32 × U32},
        program.Encodes listing → state.1.readReg = readReg.map Fin.val →
        pair.2 = (state.1.toVm, state.2) →
        ∃ state', Machine.iteration readReg ops rounds listing state = some state' ∧
          pair'.2 = (state'.1.toVm, state'.2) := by
  obtain ⟨⟨reference, referenceSp0, referenceSp1⟩, ⟨compact, compactSp0, compactSp1⟩⟩ := pair
  unfold iteration at h
  obtain ⟨⟨reference₁, addr0, addr1⟩, hprepare, h⟩ := Option.bind_eq_some_iff.mp h
  obtain ⟨⟨compact₁, addr0', addr1'⟩, hprepare', h⟩ := Option.bind_eq_some_iff.mp h
  obtain ⟨_, -, h⟩ := Option.bind_eq_some_iff.mp h
  obtain ⟨⟨reference₂, compact₂⟩, hloop, h⟩ := Option.bind_eq_some_iff.mp h
  obtain ⟨reference₃, hfinish, h⟩ := Option.bind_eq_some_iff.mp h
  obtain ⟨compact₃, hfinish', h⟩ := Option.bind_eq_some_iff.mp h
  obtain ⟨_, -, h⟩ := Option.bind_eq_some_iff.mp h
  cases h
  obtain ⟨hreference, hcompact⟩ := loop_eq_some hloop rfl
  constructor
  · unfold Reference.iteration
    dsimp only
    rw [enterLoop_eq, hprepare]
    dsimp only [Option.map_some, Option.bind_eq_bind, Option.bind_some]
    rw [hreference]
    dsimp only [Option.bind_eq_bind, Option.bind_some]
    rw [← finishIteration_eq, hfinish]
    rfl
  · intro listing readReg state hencodes hreg hstate
    obtain ⟨m, spAddr0, spAddr1⟩ := state
    cases hstate
    -- the lines and the machine that the compact machine stands for
    have henter := enterLoop_eq m.toVm compactSp0 compactSp1
    rw [hprepare', Reference.enterLoop_toVm m hreg] at henter
    simp only [Option.map_some, Option.some.injEq, Prod.mk.injEq] at henter
    obtain ⟨hentered, haddr0, haddr1⟩ := henter
    rw [← hentered, Optimized.loop_toVm hencodes] at hcompact
    obtain ⟨m₁, hm₁, rfl⟩ := Option.map_eq_some_iff.mp hcompact
    have hreg₁ : m₁.readReg = readReg.map Fin.val :=
      (Machine.sameConfiguration_of_steps (exists_steps_of_whileLoop hm₁).1).readReg.trans hreg
    rw [finishIteration_eq, ← haddr0, ← haddr1, Reference.leaveLoop_toVm m₁ hreg₁] at hfinish'
    obtain ⟨m', hm', rfl⟩ := Option.map_eq_some_iff.mp hfinish'
    refine ⟨(m', 0, 0), ?_, rfl⟩
    unfold Machine.iteration Machine.iterationOn
    dsimp only
    rw [hm₁, Option.bind_eq_bind, Option.bind_some, hm']
    rfl

end

/-- A run of either machine, the compact one by the operations of its program. -/
lemma runDifferential_eq_some {reference reference' compact' : Vm} {m : Machine} {seed : Aes.State}
    (h : runDifferential host ops rounds reference m.toVm seed = some (reference', compact')) :
    Reference.run host rounds reference seed = some reference' ∧
      ∃ m', Machine.run ops rounds m seed = some m' ∧ compact' = m'.toVm := by
  unfold runDifferential at h
  obtain ⟨prog, hprog, h⟩ := Option.bind_eq_some_iff.mp h
  obtain ⟨program, hprogram, h⟩ := Option.bind_eq_some_iff.mp h
  obtain ⟨pair, hpair, h⟩ := Option.bind_eq_some_iff.mp h
  cases h
  obtain ⟨-, hentropy, hencodes⟩ := Optimized.encodes_of_fromBytes hprogram
  constructor
  · -- the reference machine, on its own
    have hstep (pair : Pair) (held : Vm × U32 × U32) (k : ℕ) (pair' : Pair) (hheld : held = pair.1)
        (hs : iteration host ops rounds prog program pair = some pair') :
        ∃ held', Reference.iteration host rounds prog held = some held' ∧ held' = pair'.1 :=
      ⟨pair'.1, hheld ▸ (iteration_eq_some hs).1, rfl⟩
    obtain ⟨held, hheld, rfl⟩ := foldlM_follows hstep rfl hpair
    unfold Reference.run
    rw [hprog, Option.bind_eq_bind, Option.bind_some]
    dsimp only
    rw [hheld]
    rfl
  · -- the compact machine, as the machine that it encodes
    have hstep (pair : Pair) (state : Machine × U32 × U32) (k : ℕ) (pair' : Pair)
        (hstate : pair.2 = (state.1.toVm, state.2) ∧
          state.1.readReg = (Machine.readRegOf program.entropy).map Fin.val)
        (hs : iteration host ops rounds prog program pair = some pair') :
        ∃ state', Machine.iteration (Machine.readRegOf program.entropy) ops rounds
            (programOps (Aes.genProgramAes4rx4 seed programBytes)) state = some state' ∧
          pair'.2 = (state'.1.toVm, state'.2) ∧
          state'.1.readReg = (Machine.readRegOf program.entropy).map Fin.val := by
      obtain ⟨state', hstate', hpair'⟩ := (iteration_eq_some hs).2 hencodes hstate.2 hstate.1
      exact ⟨state', hstate', hpair',
        (Machine.sameSetup_of_iteration hstate').readReg.trans hstate.2⟩
    have hstart : (m.initVm program.entropy).readReg
        = (Machine.readRegOf program.entropy).map Fin.val := Machine.readReg_initVm m _
    obtain ⟨state, hstate, hcompact, -⟩ := foldlM_follows hstep
      (t := (m.initVm program.entropy, (m.initVm program.entropy).mx.setWidth 32,
        (m.initVm program.entropy).ma.setWidth 32)) ⟨rfl, hstart⟩ hpair
    refine ⟨state.1, ?_, congrArg Prod.fst hcompact⟩
    unfold Machine.run Machine.iterations
    dsimp only
    rw [hentropy] at hstate
    rw [hstate]
    rfl

/-- Before each program the audit has the state of both hashes: the machines, and one seed. -/
lemma programStep_eq_some {reference reference' compact' : Vm} {m : Machine}
    {seed seed' : Aes.State} {k : ℕ}
    (h : programStep host ops rounds blake2b (reference, m.toVm, seed) k
      = some (reference', compact', seed')) :
    Reference.run host rounds reference seed = some reference' ∧
      (∃ m', Machine.run ops rounds m seed = some m' ∧ compact' = m'.toVm) ∧
      reference'.registerBytes = compact'.registerBytes ∧
      reference'.scratchpad = compact'.scratchpad ∧
      (k + 1 < programCount → seed' = hashToM128iArray (blake2b 64 reference'.registerBytes)) := by
  unfold programStep at h
  obtain ⟨⟨reference₁, compact₁⟩, hrun, h⟩ := Option.bind_eq_some_iff.mp h
  obtain ⟨_, hbytes, h⟩ := Option.bind_eq_some_iff.mp h
  obtain ⟨_, hscratchpad, h⟩ := Option.bind_eq_some_iff.mp h
  cases h
  obtain ⟨hreference, hcompact⟩ := runDifferential_eq_some hrun
  exact ⟨hreference, hcompact, guard_eq_some.mp hbytes, guard_eq_some.mp hscratchpad,
    fun hk => if_pos hk⟩

/-- The programs before the last are those that both hashes reseed from. -/
lemma programs_eq_some {count : ℕ} (hcount : count < programCount) {reference reference' : Vm}
    {compact' : Vm} {m : Machine} {seed seed' : Aes.State}
    (h : (List.range count).foldlM (programStep host ops rounds blake2b) (reference, m.toVm, seed)
      = some (reference', compact', seed')) :
    (List.range count).foldlM (fun state _ => Reference.runAndReseed host rounds blake2b state)
        (reference, seed) = some (reference', seed') ∧
      ∃ m', (List.range count).foldlM
          (fun state _ => Machine.runAndReseed ops rounds blake2b state) (m, seed)
            = some (m', seed') ∧ compact' = m'.toVm := by
  induction count generalizing reference' compact' seed' with
  | zero =>
    cases h
    exact ⟨rfl, m, rfl, rfl⟩
  | succ count ih =>
    rw [List.range_succ, List.foldlM_append] at h
    obtain ⟨⟨reference₁, compact₁, seed₁⟩, hbefore, h⟩ := Option.bind_eq_some_iff.mp h
    obtain ⟨hreference, m₁, hm₁, rfl⟩ := ih (by omega) hbefore
    obtain ⟨state, hstep, h⟩ := Option.bind_eq_some_iff.mp h
    cases h
    obtain ⟨hrun, ⟨m', hm', rfl⟩, hbytes, -, hseed⟩ := programStep_eq_some hstep
    rw [List.range_succ, List.foldlM_append, List.foldlM_append, hreference, hm₁]
    have hreseed : Reference.runAndReseed host rounds blake2b (reference₁, seed₁)
        = some (reference', seed') := by
      unfold Reference.runAndReseed
      dsimp only
      rw [hrun, Option.bind_eq_bind, Option.bind_some, hseed hcount]
      rfl
    -- the audit reseeds from the reference, and the compact machine has the same registers
    have hreseed' : Machine.runAndReseed ops rounds blake2b (m₁, seed₁) = some (m', seed') := by
      unfold Machine.runAndReseed
      dsimp only
      rw [hm', Option.bind_eq_bind, Option.bind_some, hseed hcount, hbytes]
      rfl
    refine ⟨?_, m', ?_, rfl⟩
    · rw [Option.bind_eq_bind, Option.bind_some, List.foldlM_cons, hreseed]
      rfl
    · rw [Option.bind_eq_bind, Option.bind_some, List.foldlM_cons, hreseed']
      rfl

/-- The eight programs, and the hashes of the machines they leave. -/
lemma programs_all_eq_some {reference reference' : Vm} {compact' : Vm} {m : Machine}
    {seed seed' : Aes.State}
    (h : (List.range programCount).foldlM (programStep host ops rounds blake2b)
      (reference, m.toVm, seed) = some (reference', compact', seed')) :
    ((List.range (programCount - 1)).foldlM
        (fun state _ => Reference.runAndReseed host rounds blake2b state) (reference, seed)).bind
        (fun state => Reference.run host rounds state.1 state.2) = some reference' ∧
      ∃ m', Machine.runs ops rounds blake2b m seed = some m' ∧ compact' = m'.toVm ∧
        reference'.scratchpad = m'.scratchpad.toArray := by
  -- the last program is apart: nothing is reseeded after it
  have hrange : List.range programCount
      = List.range (programCount - 1) ++ [programCount - 1] := by decide
  rw [hrange, List.foldlM_append] at h
  obtain ⟨⟨reference₁, compact₁, seed₁⟩, hbefore, h⟩ := Option.bind_eq_some_iff.mp h
  obtain ⟨hreference, m₁, hm₁, rfl⟩ := programs_eq_some (by decide) hbefore
  obtain ⟨state, hstep, h⟩ := Option.bind_eq_some_iff.mp h
  cases h
  obtain ⟨hrun, ⟨m', hm', rfl⟩, -, hscratchpad, -⟩ := programStep_eq_some hstep
  rw [hreference]
  refine ⟨hrun, m', ?_, rfl, hscratchpad⟩
  unfold Machine.runs
  rw [hm₁, Option.bind_eq_bind, Option.bind_some]
  exact hm'

end

/-! ## An audit on a correct host -/

/-- Two machines that differ in nothing after the counter is advanced differed in nothing before. -/
lemma eq_of_advanced {vm vm' : Vm}
    (h : { vm with pc := vm.pc + 1 } = { vm' with pc := vm'.pc + 1 }) : vm = vm' := by
  obtain ⟨⟩ := vm
  obtain ⟨⟩ := vm'
  simp only [Vm.mk.injEq, add_left_inj] at h ⊢
  exact h

section
variable {host : LaneCall → U64} {ops ops' : LaneOps} {rounds : ℕ} {blake2b : Blake2b}
  {prog : Reference.Program} {program : Optimized.CompactProgram}

lemma dispatch_of_both {vm vm' : Vm} (hreference : Reference.dispatch host prog vm = some vm')
    (hcompact : Optimized.dispatch ops program vm = some vm') :
    dispatch host ops prog program (vm, vm) = some (vm', vm') := by
  obtain ⟨referenceInstr, hinstr, hreference⟩ := Option.bind_eq_some_iff.mp hreference
  obtain ⟨reference, hexecute, hreference⟩ := Option.bind_eq_some_iff.mp hreference
  obtain ⟨compactInstr, hinstr', hcompact⟩ := Option.bind_eq_some_iff.mp hcompact
  obtain ⟨compact, hrun, hcompact⟩ := Option.bind_eq_some_iff.mp hcompact
  have heq : reference = compact :=
    eq_of_advanced ((Option.some.inj hreference).trans (Option.some.inj hcompact).symm)
  subst heq
  unfold dispatch
  dsimp only
  rw [hinstr, hinstr', guard, if_pos rfl]
  simp only [Option.bind_eq_bind, Option.pure_def, Option.bind_some]
  rw [hexecute, Option.bind_some, hrun, Option.bind_some, assertVmState_self, Option.bind_some]
  exact congrArg₂ (fun x y => some (x, y)) (Option.some.inj hreference) (Option.some.inj hreference)

/-- The machine's operations, on calls where both interpreters compute the same. -/
structure Common (host : LaneCall → U64) (ops common : LaneOps) : Prop where
  agrees : Reference.Agrees host common
  le : ∀ call value, common call = some value → ops call = some value

section
variable {common : LaneOps} (hcommon : Common host ops common)
include hcommon

section
variable {listing : List Op} (hfollows : prog.Follows listing) (hencodes : program.Encodes listing)
include hfollows hencodes

lemma dispatch_follows {m m' : Machine} (h : m.dispatch common listing = some m') :
    dispatch host ops prog program (m.toVm, m.toVm) = some (m'.toVm, m'.toVm) := by
  apply dispatch_of_both (Reference.dispatch_follows hcommon.agrees hfollows h)
  rw [Optimized.dispatch_toVm hencodes, Machine.dispatch_mono hcommon.le h]
  rfl

lemma iteration_follows {readReg : Vector (Fin 8) 4} {state state' : Machine × U32 × U32}
    (hreg : state.1.readReg = readReg.map Fin.val)
    (h : Machine.iteration readReg common rounds listing state = some state') :
    iteration host ops rounds prog program ((state.1.toVm, state.2), (state.1.toVm, state.2))
      = some ((state'.1.toVm, state'.2), (state'.1.toVm, state'.2)) := by
  obtain ⟨m, spAddr0, spAddr1⟩ := state
  obtain ⟨m', hm', rfl⟩ := Option.map_eq_some_iff.mp h
  obtain ⟨m₁, hloop, hleave⟩ := Machine.iterationOn_eq_some hm'
  have hreg₁ : m₁.readReg = readReg.map Fin.val :=
    (Machine.sameConfiguration_of_steps (exists_steps_of_whileLoop hloop).1).readReg.trans hreg
  -- what both machines are prepared to
  have henter := enterLoop_eq m.toVm spAddr0 spAddr1
  rw [Reference.enterLoop_toVm m hreg] at henter
  obtain ⟨⟨vm, addr0, addr1⟩, hprepare, hentered⟩ := Option.map_eq_some_iff.mp henter.symm
  simp only [Prod.mk.injEq] at hentered
  obtain ⟨hvm, haddr0, haddr1⟩ := hentered
  have hcond (m : Machine) : inLoop (m.toVm, m.toVm) = m.inLoop := rfl
  have hboth := whileLoop_follows (fun m : Machine => (m.toVm, m.toVm)) hcond
    (fun _ _ _ hs => dispatch_follows hcommon hfollows hencodes hs) hloop
  have hfinish : finishIteration m₁.toVm addr0.toNat addr1.toNat = some m'.toVm := by
    rw [finishIteration_eq, haddr0, haddr1, Reference.leaveLoop_toVm m₁ hreg₁, hleave]
    rfl
  unfold iteration
  simp only [hprepare, Option.bind_eq_bind, Option.bind_some, assertVmState_self]
  rw [hvm, hboth]
  simp only [Option.bind_some, hfinish, assertVmState_self, Option.pure_def]

lemma iterations_follows {readReg : Vector (Fin 8) 4} {m : Machine}
    (hreg : m.readReg = readReg.map Fin.val) {count : ℕ} {state : Machine × U32 × U32}
    (h : Machine.iterations readReg common rounds listing m count = some state) :
    (List.range count).foldlM (fun pair _ => iteration host ops rounds prog program pair)
        ((m.toVm, m.mx.setWidth 32, m.ma.setWidth 32),
          (m.toVm, m.mx.setWidth 32, m.ma.setWidth 32))
      = some ((state.1.toVm, state.2), (state.1.toVm, state.2)) := by
  have hstep (state : Machine × U32 × U32) (pair : Pair) (k : ℕ) (state' : Machine × U32 × U32)
      (hpair : pair = ((state.1.toVm, state.2), (state.1.toVm, state.2)) ∧
        state.1.readReg = readReg.map Fin.val)
      (hs : Machine.iteration readReg common rounds listing state = some state') :
      ∃ pair', iteration host ops rounds prog program pair = some pair' ∧
        pair' = ((state'.1.toVm, state'.2), (state'.1.toVm, state'.2)) ∧
        state'.1.readReg = readReg.map Fin.val := by
    obtain ⟨rfl, hreg⟩ := hpair
    exact ⟨_, iteration_follows hcommon hfollows hencodes hreg hs, rfl,
      (Machine.sameSetup_of_iteration hs).readReg.trans hreg⟩
  obtain ⟨pair, hpair, rfl, -⟩ := foldlM_follows hstep ⟨rfl, hreg⟩ h
  exact hpair

end

lemma runDifferential_follows {m m' : Machine} {seed : Aes.State}
    (h : Machine.run common rounds m seed = some m') :
    runDifferential host ops rounds m.toVm m.toVm seed = some (m'.toVm, m'.toVm) := by
  obtain ⟨prog, hprog, hentropy, hfollows⟩ :=
    Reference.exists_fromBytes (length_genProgramAes4rx4 seed)
  obtain ⟨program, hprogram, hentropy', hencodes⟩ :=
    Optimized.exists_fromBytes (length_genProgramAes4rx4 seed)
  obtain ⟨spAddrs, hstate⟩ := Machine.run_eq_some h
  have hpair := iterations_follows hcommon hfollows hencodes
    (Machine.readReg_initVm m _) hstate
  unfold runDifferential
  dsimp only
  rw [hprog, hprogram]
  simp only [Option.bind_eq_bind, Option.bind_some, Option.pure_def]
  rw [hentropy, hentropy', ← Machine.toVm_initVm]
  generalize m.initVm (entropyOf (Aes.genProgramAes4rx4 seed programBytes)) = start at hpair
  rw [show start.toVm.mx = start.mx from rfl, show start.toVm.ma = start.ma from rfl, hpair]
  rfl

lemma programStep_follows {m m' : Machine} {seed : Aes.State}
    (h : Machine.run common rounds m seed = some m') (k : ℕ) :
    programStep host ops rounds blake2b (m.toVm, m.toVm, seed) k
      = some (m'.toVm, m'.toVm, if k + 1 < programCount then
          hashToM128iArray (blake2b 64 m'.toVm.registerBytes) else seed) := by
  unfold programStep
  dsimp only
  rw [runDifferential_follows hcommon h]
  simp only [Option.bind_eq_bind, Option.bind_some, Option.pure_def, guard, if_true]

lemma programs_follows {count : ℕ} (hcount : count < programCount) {m m' : Machine}
    {seed seed' : Aes.State}
    (h : (List.range count).foldlM
      (fun state _ => Machine.runAndReseed common rounds blake2b state) (m, seed)
        = some (m', seed')) :
    (List.range count).foldlM (programStep host ops rounds blake2b) (m.toVm, m.toVm, seed)
      = some (m'.toVm, m'.toVm, seed') := by
  induction count generalizing m' seed' with
  | zero =>
    cases h
    rfl
  | succ count ih =>
    rw [List.range_succ, List.foldlM_append, Option.bind_eq_bind, Option.bind_eq_some_iff] at h
    obtain ⟨⟨m₁, seed₁⟩, hbefore, h⟩ := h
    rw [List.foldlM_cons, Option.bind_eq_bind, Option.bind_eq_some_iff] at h
    obtain ⟨state, hreseed, h⟩ := h
    cases h
    unfold Machine.runAndReseed at hreseed
    rw [Option.bind_eq_bind, Option.bind_eq_some_iff] at hreseed
    obtain ⟨m₂, hrun, h⟩ := hreseed
    cases h
    rw [List.range_succ, List.foldlM_append, ih (by omega) hbefore, Option.bind_eq_bind,
      Option.bind_some, List.foldlM_cons, programStep_follows hcommon hrun, if_pos hcount]
    rfl

/-- The audit follows a hash of the machine. -/
theorem differentialAudit_follows {input : List U8} {words : Vector U64 scratchpadWords}
    {last : Aes.State} {out : Vector U8 32 × Machine}
    (hfill : Aes.fillAes1rx4U64 (hashToM128iArray (blake2b 64 input))
      (Vm.newVm SeedMemory.noMemory).scratchpad = some (words.toArray, last))
    (h : Machine.hashFrom common rounds blake2b
      (Machine.filled (Vm.newVm SeedMemory.noMemory) words) last = some out) :
    differentialAudit host ops rounds blake2b input = some out.1 := by
  unfold Machine.hashFrom Machine.finish Machine.runs at h
  rw [Option.bind_eq_bind, Option.bind_eq_some_iff] at h
  obtain ⟨m, hruns, hfinish⟩ := h
  rw [Option.bind_eq_bind, Option.bind_eq_some_iff] at hfinish
  obtain ⟨finalHash, hhash, hout⟩ := hfinish
  obtain rfl := Option.some.inj hout
  rw [Option.bind_eq_bind, Option.bind_eq_some_iff] at hruns
  obtain ⟨⟨m₁, seed₁⟩, hbefore, hrun⟩ := hruns
  have hprograms : (List.range programCount).foldlM (programStep host ops rounds blake2b)
      ((Machine.filled (Vm.newVm SeedMemory.noMemory) words).toVm,
        (Machine.filled (Vm.newVm SeedMemory.noMemory) words).toVm, last)
        = some (m.toVm, m.toVm, seed₁) := by
    have hrange : List.range programCount
        = List.range (programCount - 1) ++ [programCount - 1] := by decide
    rw [hrange, List.foldlM_append, programs_follows hcommon (by decide) hbefore,
      Option.bind_eq_bind, Option.bind_some, List.foldlM_cons, programStep_follows hcommon hrun]
    rfl
  unfold differentialAudit Vm.initScratchpad
  dsimp only
  rw [hfill]
  simp only [Option.bind_eq_bind, Option.bind_some, Option.pure_def, guard, if_true]
  have hstart : { Vm.newVm SeedMemory.noMemory with scratchpad := words.toArray }.resetRoundingMode
      = (Machine.filled (Vm.newVm SeedMemory.noMemory) words).toVm := rfl
  rw [hstart, hprograms, Option.bind_some]
  show (Aes.hashAes1rx4 m.scratchpad.toArray).bind _ = _
  rw [hhash]
  simp only [Option.bind_some, if_true]
  rfl

end

end

/-- Between correctly rounded arithmetics there is no divergence to find. -/
lemma exists_differentialAudit {host arith : LaneCall → U64} (hhost : CorrectlyRounded host)
    (harith : CorrectlyRounded arith) (blake2b : Blake2b) (input : List U8) {rounds : ℕ}
    (hrounds : 768 ≤ rounds) :
    ∃ digest final,
      differentialAudit host (fun call => some (arith call)) rounds blake2b input = some digest ∧
      Reference.calculateHash host rounds blake2b (Vm.newVm SeedMemory.noMemory) input
        = some (digest, final) := by
  obtain ⟨words, last, hfill⟩ := Machine.exists_fill (hashToM128iArray (blake2b 64 input))
  have hfill := hfill _ (Vm.size_newVm SeedMemory.noMemory)
  obtain ⟨out, hout⟩ := Machine.exists_hashFrom arith hrounds blake2b
    (Machine.filled (Vm.newVm SeedMemory.noMemory) words) last
  have hagrees := agrees_agreeingOps host arith
  have hcommon : Common host (fun call => some (arith call)) (agreeingOps host arith) := by
    refine ⟨hagrees, fun call value h => ?_⟩
    unfold agreeingOps at h
    split at h
    · exact h
    · exact absurd h nofun
  have hout' : Machine.hashFrom (agreeingOps host arith) rounds blake2b
      (Machine.filled (Vm.newVm SeedMemory.noMemory) words) last = some out := by
    rw [Machine.hashFrom_of_specified harith]
    · exact hout
    · intro call hcall
      have hcall' := hhost.eq harith hcall
      exact if_pos ⟨hcall', (hhost.swap_eq hcall).trans hcall'⟩
  exact ⟨out.1, out.2.toVm, differentialAudit_follows hcommon hfill hout',
    Reference.calculateHash_follows hagrees hfill hout'⟩

/-- Where the nearest operations of the optimized interpreter and all operations of the host are
binary64, the audit passes on every input, with the hash of the reference interpreter. -/
theorem differentialAudit_passes (native nearest : SoftFp.Nearest) (hnative : native.IsBinary64)
    (hnearest : nearest.IsBinary64) (host : LaneCall → U64) (hhost : CorrectlyRounded host)
    (blake2b : Blake2b) (input : List U8) {rounds : ℕ} (hrounds : 768 ≤ rounds) :
    ∃ digest final,
      differentialAudit host (fun call => some (Optimized.laneOp native nearest call)) rounds
        blake2b input = some digest ∧
      Reference.calculateHash host rounds blake2b (Vm.newVm SeedMemory.noMemory) input
        = some (digest, final) :=
  exists_differentialAudit hhost (Optimized.correctlyRounded_laneOp hnative hnearest) blake2b input
    hrounds

theorem differentialAudit_passes_rounding :
    ∃ digest final,
      differentialAudit roundingArith (fun call => some (Optimized.laneOp (.ofArith roundingArith)
        (.ofArith roundingArith) call)) 768 (fun _ _ => Vector.replicate _ 0) [1, 2, 3]
        = some digest ∧
      Reference.calculateHash roundingArith 768 (fun _ _ => Vector.replicate _ 0)
        (Vm.newVm SeedMemory.noMemory) [1, 2, 3] = some (digest, final) :=
  have hnearest := SoftFp.isBinary64_ofArith correctlyRounded_roundingArith
  differentialAudit_passes _ _ hnearest hnearest roundingArith correctlyRounded_roundingArith _ _
    le_rfl

/-- On every host, with any lane arithmetic: an audit that passes returns the hash of the reference
interpreter, and of the optimized one. -/
theorem differentialAudit_sound {host : LaneCall → U64} {ops : LaneOps} {rounds : ℕ}
    {blake2b : Blake2b} {input : List U8} {digest : Vector U8 32}
    (h : differentialAudit host ops rounds blake2b input = some digest) :
    (∃ final, Reference.calculateHash host rounds blake2b (Vm.newVm SeedMemory.noMemory) input
        = some (digest, final)) ∧
      ∃ final, Optimized.calculateHashImpl ops rounds blake2b (Vm.newVm SeedMemory.noMemory) input
        = some (digest, final) := by
  have hsize := Vm.size_newVm SeedMemory.noMemory
  obtain ⟨words, last, hfill⟩ := Machine.exists_fill (hashToM128iArray (blake2b 64 input))
  have hfill := hfill _ hsize
  unfold differentialAudit Vm.initScratchpad at h
  dsimp only at h
  rw [hfill] at h
  simp only [Option.bind_eq_bind, Option.bind_some, Option.pure_def] at h
  obtain ⟨_, -, h⟩ := Option.bind_eq_some_iff.mp h
  obtain ⟨_, -, h⟩ := Option.bind_eq_some_iff.mp h
  obtain ⟨⟨reference, compact, seed⟩, hprograms, h⟩ := Option.bind_eq_some_iff.mp h
  obtain ⟨finalHash, hhash, h⟩ := Option.bind_eq_some_iff.mp h
  obtain ⟨_, hbytes, h⟩ := Option.bind_eq_some_iff.mp h
  cases h
  have hbytes := guard_eq_some.mp hbytes
  have hstart : { Vm.newVm SeedMemory.noMemory with scratchpad := words.toArray }.resetRoundingMode
      = (Machine.filled (Vm.newVm SeedMemory.noMemory) words).toVm := rfl
  rw [hstart] at hprograms
  obtain ⟨hreference, m', hm', rfl, hscratchpad⟩ := programs_all_eq_some hprograms
  constructor
  · refine ⟨{ reference with a := finalHash.map M128d.ofM128i }, ?_⟩
    unfold Reference.calculateHash Vm.initScratchpad
    dsimp only
    rw [hfill]
    simp only [Option.bind_eq_bind, Option.bind_some, Option.pure_def]
    rw [hstart, ← Option.bind_assoc, hreference, Option.bind_some, hhash]
    rfl
  · refine ⟨{ m' with a := finalHash.map M128d.ofM128i : Machine }.toVm, ?_⟩
    rw [Optimized.calculateHashImpl_eq ops rounds blake2b hsize input hfill]
    unfold Machine.hashFrom Machine.finish
    rw [hm', Option.bind_eq_bind, Option.bind_some, ← hscratchpad, hhash]
    show some (blake2b 32 _, _) = some (blake2b 32 _, _)
    rw [hbytes]
    rfl

theorem differentialAudit_sound_rounding :
    ∃ digest final, Optimized.calculateHashImpl (fun call => some (roundingArith call)) 768
      (fun _ _ => Vector.replicate _ 0) (Vm.newVm SeedMemory.noMemory) [1, 2, 3]
      = some (digest, final) := by
  obtain ⟨digest, -, haudit, -⟩ := exists_differentialAudit correctlyRounded_roundingArith
    correctlyRounded_roundingArith (fun _ _ => Vector.replicate _ 0) [1, 2, 3] le_rfl
  obtain ⟨-, final, hfinal⟩ := differentialAudit_sound haudit
  exact ⟨digest, final, hfinal⟩

end DifferentialAudit

end RandomXSp1
