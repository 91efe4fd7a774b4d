import RandomXSp1.Vm.Run

/-!
# Hashes of the machine

The eight chained runs between the fill of the scratchpad and its hash. The fill and the first
iteration of a run overwrite whatever they do not read, so a hash depends on the input and the
seed memory only.
-/

namespace RandomXSp1

namespace Machine

/-! ## The scratchpad -/

/-- What a scratchpad is filled with, and the state of the generator afterwards, depend on the
seed only. -/
lemma exists_fill (seed : Aes.State) :
    ∃ (words : Vector U64 scratchpadWords) (last : Aes.State),
      ∀ into : Array U64, into.size = scratchpadWords →
        Aes.fillAes1rx4U64 seed into = some (words.toArray, last) := by
  obtain ⟨chunks, hchunks⟩ : ∃ chunks, scratchpadWords = 8 * chunks := ⟨32768, by decide⟩
  have hsize : (Aes.fillChunks chunks seed).1.toArray.size = scratchpadWords := by
    rw [List.size_toArray, Aes.length_fillChunks, hchunks]
  refine ⟨⟨(Aes.fillChunks chunks seed).1.toArray, hsize⟩, (Aes.fillChunks chunks seed).2, ?_⟩
  intro into hinto
  exact Aes.fillAes1rx4U64_eq (hinto.trans hchunks) seed

/-- The machine after the fill of the scratchpad and the reset of the rounding mode. -/
def filled (vm : Vm) (words : Vector U64 scratchpadWords) : Machine where
  mx := vm.mx
  ma := vm.ma
  r := vm.r
  f := vm.f
  e := vm.e
  a := vm.a
  scratchpad := words
  pc := vm.pc
  eMask := vm.eMask
  readReg := vm.readReg
  mem := vm.mem
  datasetOffset := vm.datasetOffset
  mode := .nearest

/-! ## Hashes -/

section
variable (ops : LaneOps) (rounds : ℕ) (blake2b : Blake2b)

/-- A run and the seed of the next one. -/
def runAndReseed (state : Machine × Aes.State) : Option (Machine × Aes.State) := do
  let m ← run ops rounds state.1 state.2
  return (m, hashToM128iArray (blake2b 64 m.toVm.registerBytes))

/-- The runs of a hash, from its first machine and seed. -/
def runs (m : Machine) (seed : Aes.State) : Option Machine := do
  let state ← (List.range (programCount - 1)).foldlM
    (fun state _ => runAndReseed ops rounds blake2b state) (m, seed)
  run ops rounds state.1 state.2

/-- The digest, and the machine with the hash of the scratchpad in its group A. -/
def finish (m : Machine) : Option (Vector U8 32 × Machine) := do
  let finalHash ← Aes.hashAes1rx4 m.scratchpad.toArray
  let m := { m with a := finalHash.map M128d.ofM128i }
  return (blake2b 32 m.toVm.registerBytes, m)

/-- A hash, from the machine after the fill of the scratchpad. -/
def hashFrom (m : Machine) (seed : Aes.State) : Option (Vector U8 32 × Machine) := do
  let m ← runs ops rounds blake2b m seed
  finish blake2b m

end

/-! ## What a run reads -/

/-- The machine with other floating-point registers and another counter. -/
def withStale (f e : Vector M128d 4) (pc : ℤ) (m : Machine) : Machine := { m with f, e, pc }

section
variable {ops : LaneOps} {rounds : ℕ} {blake2b : Blake2b}

/-- Two machines with the same scratchpad, seed memory and rounding mode. -/
structure SameInputs (m m' : Machine) : Prop where
  scratchpad : m'.scratchpad = m.scratchpad
  mem : m'.mem = m.mem
  mode : m'.mode = m.mode

lemma initVm_eq_withStale {m m' : Machine} (h : m.SameInputs m') (entropy : Vector U64 16) :
    m'.initVm entropy = (m.initVm entropy).withStale m'.f m'.e m'.pc := by
  unfold withStale initVm
  rw [h.scratchpad, h.mem, h.mode]
  rfl

/-- A run reads nothing else. -/
lemma run_congr {m m' : Machine} (h : m.SameInputs m') (seed : Aes.State) :
    run ops rounds m' seed = run ops rounds m seed := by
  unfold run
  dsimp only
  rw [initVm_eq_withStale h]
  generalize m.initVm (entropyOf (Aes.genProgramAes4rx4 seed programBytes)) = start
  unfold iterations
  rw [List.range_eq_range', show programIterations = 2047 + 1 from rfl, List.range'_succ,
    List.foldlM_cons, List.foldlM_cons]
  rfl

lemma runs_congr {m m' : Machine} (h : m.SameInputs m') (seed : Aes.State) :
    runs ops rounds blake2b m' seed = runs ops rounds blake2b m seed := by
  unfold runs
  rw [List.range_eq_range', show programCount - 1 = 6 + 1 from rfl, List.range'_succ,
    List.foldlM_cons, List.foldlM_cons]
  unfold runAndReseed
  dsimp only
  rw [run_congr h]

/-- A hash depends on the seed memory only. -/
theorem hashFrom_congr {vm vm' : Vm} (h : vm'.mem = vm.mem) (words : Vector U64 scratchpadWords)
    (seed : Aes.State) :
    hashFrom ops rounds blake2b (filled vm' words) seed
      = hashFrom ops rounds blake2b (filled vm words) seed := by
  have hinputs : (filled vm words).SameInputs (filled vm' words) := ⟨rfl, h, rfl⟩
  unfold hashFrom
  rw [runs_congr hinputs]

end

end Machine

end RandomXSp1
