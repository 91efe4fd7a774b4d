import RandomXSp1.Vm.Hash
import RandomXSp1.Vm.ReferenceRun
import RandomXSp1.Vm.SafetyTheorems

/-!
# Hashes of the two interpreters

Both interpreters fill the scratchpad, reset the rounding mode and then perform the runs of the
machine, so they agree wherever their lane arithmetic does, and what a machine held before makes
no difference.
-/

namespace RandomXSp1

namespace Machine

/-! ## Totality -/

section
variable {arith : LaneCall → U64} {rounds : ℕ} (hrounds : 768 ≤ rounds)
include hrounds

variable (arith) in
lemma exists_run (m : Machine) (seed : Aes.State) :
    ∃ m', run (fun call => some (arith call)) rounds m seed = some m' := by
  have hlength := length_programOps (length_genProgramAes4rx4 seed)
  obtain ⟨state, hstate⟩ := exists_iterations arith hlength
    (targetsSound_decodeOps (instructionWords _)) hrounds
    (readRegOf (entropyOf (Aes.genProgramAes4rx4 seed programBytes)))
    (m.initVm (entropyOf (Aes.genProgramAes4rx4 seed programBytes))) programIterations
  unfold run
  dsimp only
  rw [hstate]
  exact ⟨state.1, rfl⟩

omit hrounds in
lemma exists_finish (blake2b : Blake2b) (m : Machine) : ∃ out, finish blake2b m = some out := by
  unfold finish Aes.hashAes1rx4
  rw [m.scratchpad.size_toArray, if_pos (by decide)]
  exact ⟨_, rfl⟩

variable (arith) in
lemma exists_runs (blake2b : Blake2b) (m : Machine) (seed : Aes.State) :
    ∃ m', runs (fun call => some (arith call)) rounds blake2b m seed = some m' := by
  have hreseed : ∀ state : Machine × Aes.State, ∀ k ∈ List.range (programCount - 1),
      ∃ state', runAndReseed (fun call => some (arith call)) rounds blake2b state = some state' := by
    intro state _ _
    obtain ⟨m', hm'⟩ := exists_run arith hrounds state.1 state.2
    unfold runAndReseed
    rw [hm']
    exact ⟨_, rfl⟩
  obtain ⟨state, hstate⟩ := exists_foldlM hreseed (m, seed)
  unfold runs
  rw [hstate, Option.bind_eq_bind, Option.bind_some]
  exact exists_run arith hrounds state.1 state.2

variable (arith) in
/-- A hash is returned. -/
lemma exists_hashFrom (blake2b : Blake2b) (m : Machine) (seed : Aes.State) :
    ∃ out, hashFrom (fun call => some (arith call)) rounds blake2b m seed = some out := by
  obtain ⟨m', hm'⟩ := exists_runs arith hrounds blake2b m seed
  unfold hashFrom
  rw [hm', Option.bind_eq_bind, Option.bind_some]
  exact exists_finish blake2b m'

end

end Machine

namespace Optimized

/-! ## The optimized interpreter -/

section
variable (ops : LaneOps) (rounds : ℕ) (blake2b : Blake2b)

lemma runAndReseed_toVm (state : Machine × Aes.State) :
    runAndReseed ops rounds blake2b (state.1.toVm, state.2)
      = (Machine.runAndReseed ops rounds blake2b state).map fun state =>
          (state.1.toVm, state.2) := by
  unfold runAndReseed Machine.runAndReseed
  dsimp only
  rw [run_toVm]
  cases Machine.run ops rounds state.1 state.2 <;> rfl

lemma runs_toVm (m : Machine) (seed : Aes.State) :
    ((List.range (programCount - 1)).foldlM
        (fun state _ => runAndReseed ops rounds blake2b state) (m.toVm, seed)).bind
        (fun state => run ops rounds state.1 state.2)
      = (Machine.runs ops rounds blake2b m seed).map Machine.toVm := by
  have hreseed : (List.range (programCount - 1)).foldlM
      (fun state _ => runAndReseed ops rounds blake2b state) (m.toVm, seed)
        = ((List.range (programCount - 1)).foldlM
            (fun state _ => Machine.runAndReseed ops rounds blake2b state) (m, seed)).map
          fun state => (state.1.toVm, state.2) :=
    foldlM_map (fun state : Machine × Aes.State => (state.1.toVm, state.2))
      (fun state _ => runAndReseed_toVm ops rounds blake2b state) _ (m, seed)
  unfold Machine.runs
  rw [hreseed]
  cases (List.range (programCount - 1)).foldlM
      (fun state _ => Machine.runAndReseed ops rounds blake2b state) (m, seed) with
  | none => rfl
  | some state =>
    rw [Option.map_some, Option.bind_some, Option.bind_eq_bind, Option.bind_some]
    exact run_toVm ops rounds state.1 state.2

/-- A hash of the optimized interpreter is a hash of the machine. -/
theorem calculateHashImpl_eq {vm : Vm} (hsize : vm.scratchpad.size = scratchpadWords)
    (input : List U8) {words : Vector U64 scratchpadWords} {last : Aes.State}
    (hfill : Aes.fillAes1rx4U64 (hashToM128iArray (blake2b 64 input)) vm.scratchpad
      = some (words.toArray, last)) :
    calculateHashImpl ops rounds blake2b vm input
      = (Machine.hashFrom ops rounds blake2b (Machine.filled vm words) last).map fun out =>
          (out.1, out.2.toVm) := by
  have hruns := runs_toVm ops rounds blake2b (Machine.filled vm words) last
  have hstart : { vm with scratchpad := words.toArray }.resetRoundingMode
      = (Machine.filled vm words).toVm := rfl
  unfold calculateHashImpl Vm.initScratchpad Machine.hashFrom
  rw [guard, if_pos hsize]
  dsimp only
  rw [hfill]
  simp only [Option.bind_eq_bind, Option.bind_some, Option.pure_def]
  rw [hstart, ← Option.bind_assoc, hruns]
  cases Machine.runs ops rounds blake2b (Machine.filled vm words) last with
  | none => rfl
  | some m =>
    rw [Option.map_some, Option.bind_some, Option.bind_some]
    unfold Machine.finish
    show (Aes.hashAes1rx4 m.scratchpad.toArray).bind _ = Option.map _ (Option.bind _ _)
    cases Aes.hashAes1rx4 m.scratchpad.toArray <;> rfl

end

/-- Machines with the same seed memory return the same digest and end in the same state, whatever
they held before. -/
theorem calculateHashImpl_reuse (arith : LaneCall → U64) (blake2b : Blake2b) (input : List U8)
    {rounds : ℕ} (hrounds : 768 ≤ rounds) {vm vm' : Vm}
    (hsize : vm.scratchpad.size = scratchpadWords) (hsize' : vm'.scratchpad.size = scratchpadWords)
    (hmem : vm'.mem = vm.mem) :
    ∃ digest final,
      calculateHashImpl (fun call => some (arith call)) rounds blake2b vm input
        = some (digest, final) ∧
      calculateHashImpl (fun call => some (arith call)) rounds blake2b vm' input
        = some (digest, final) := by
  obtain ⟨words, last, hfill⟩ := Machine.exists_fill (hashToM128iArray (blake2b 64 input))
  obtain ⟨out, hout⟩ := Machine.exists_hashFrom arith hrounds blake2b
    (Machine.filled vm words) last
  have hout' := (Machine.hashFrom_congr hmem words last).trans hout
  refine ⟨out.1, out.2.toVm, ?_, ?_⟩
  · rw [calculateHashImpl_eq _ rounds blake2b hsize input (hfill _ hsize), hout]
    rfl
  · rw [calculateHashImpl_eq _ rounds blake2b hsize' input (hfill _ hsize'), hout']
    rfl

lemma calculateHashImpl_reuse_usedVm :
    ∃ digest final,
      calculateHashImpl (fun _ => some 0) 768 (fun _ _ => Vector.replicate _ 0)
          (Vm.newVm SeedMemory.noMemory) [1, 2, 3] = some (digest, final) ∧
      calculateHashImpl (fun _ => some 0) 768 (fun _ _ => Vector.replicate _ 0)
          { Vm.newVm SeedMemory.noMemory with pc := 7, mx := 5, roundingMode := 3 } [1, 2, 3]
        = some (digest, final) :=
  calculateHashImpl_reuse (fun _ => 0) _ [1, 2, 3] le_rfl (Vm.size_newVm SeedMemory.noMemory)
    (Vm.size_newVm SeedMemory.noMemory) rfl

end Optimized

namespace Reference

/-! ## The reference interpreter -/

section
variable {host : LaneCall → U64} {ops : LaneOps} (hagrees : Agrees host ops) {rounds : ℕ}
  {blake2b : Blake2b}
include hagrees

lemma runAndReseed_follows {state state' : Machine × Aes.State}
    (h : Machine.runAndReseed ops rounds blake2b state = some state') :
    runAndReseed host rounds blake2b (state.1.toVm, state.2) = some (state'.1.toVm, state'.2) := by
  unfold Machine.runAndReseed at h
  rw [Option.bind_eq_bind, Option.bind_eq_some_iff] at h
  obtain ⟨m', hm', hstate'⟩ := h
  obtain rfl := Option.some.inj hstate'
  unfold runAndReseed
  dsimp only
  rw [run_follows hagrees hm']
  rfl

lemma runs_follows {m m' : Machine} {seed : Aes.State}
    (h : Machine.runs ops rounds blake2b m seed = some m') :
    ((List.range (programCount - 1)).foldlM
        (fun state _ => runAndReseed host rounds blake2b state) (m.toVm, seed)).bind
        (fun state => run host rounds state.1 state.2)
      = some m'.toVm := by
  unfold Machine.runs at h
  rw [Option.bind_eq_bind, Option.bind_eq_some_iff] at h
  obtain ⟨state, hstate, hm'⟩ := h
  have hreseed (s : Machine × Aes.State) (t : Vm × Aes.State) (k : ℕ) (s' : Machine × Aes.State)
      (hst : t = (s.1.toVm, s.2)) (hs' : Machine.runAndReseed ops rounds blake2b s = some s') :
      ∃ t', runAndReseed host rounds blake2b t = some t' ∧ t' = (s'.1.toVm, s'.2) := by
    rw [hst]
    exact ⟨_, runAndReseed_follows hagrees hs', rfl⟩
  obtain ⟨held, hheld, rfl⟩ := foldlM_follows hreseed (t := (m.toVm, seed)) rfl hstate
  rw [hheld, Option.bind_some]
  exact run_follows hagrees hm'

/-- A hash of the reference interpreter follows a hash of the machine. -/
theorem calculateHash_follows {vm : Vm} {input : List U8} {words : Vector U64 scratchpadWords}
    {last : Aes.State} {out : Vector U8 32 × Machine}
    (hfill : Aes.fillAes1rx4U64 (hashToM128iArray (blake2b 64 input)) vm.scratchpad
      = some (words.toArray, last))
    (h : Machine.hashFrom ops rounds blake2b (Machine.filled vm words) last = some out) :
    calculateHash host rounds blake2b vm input = some (out.1, out.2.toVm) := by
  unfold Machine.hashFrom Machine.finish at h
  rw [Option.bind_eq_bind, Option.bind_eq_some_iff] at h
  obtain ⟨m, hruns, hfinish⟩ := h
  rw [Option.bind_eq_bind, Option.bind_eq_some_iff] at hfinish
  obtain ⟨finalHash, hhash, hout⟩ := hfinish
  obtain rfl := Option.some.inj hout
  have hheld := runs_follows hagrees hruns
  have hstart : { vm with scratchpad := words.toArray }.resetRoundingMode
      = (Machine.filled vm words).toVm := rfl
  unfold calculateHash Vm.initScratchpad
  dsimp only
  rw [hfill]
  simp only [Option.bind_eq_bind, Option.bind_some, Option.pure_def]
  rw [hstart, ← Option.bind_assoc, hheld, Option.bind_some]
  show (Aes.hashAes1rx4 m.scratchpad.toArray).bind _ = _
  rw [hhash]
  rfl

end

end Reference

/-! ## Calls that agree -/

/-- The calls on which the reference's host agrees with the operation that the optimized
interpreter selects, in either order of the operands of an addition or a multiplication. -/
def agreeingOps (host arith : LaneCall → U64) : LaneOps := fun call =>
  if host call = arith call ∧ host call.swap = arith call then some (arith call) else none

lemma agrees_agreeingOps (host arith : LaneCall → U64) :
    Reference.Agrees host (agreeingOps host arith) := by
  intro call value h
  unfold agreeingOps at h
  split at h
  · rename_i hcall
    rw [← Option.some.inj h]
    exact hcall
  · exact absurd h nofun

end RandomXSp1
