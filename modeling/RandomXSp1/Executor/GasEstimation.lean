import RandomXSp1.Audit.Monero
import RandomXSp1.WorkerPool

/-!
# The executor and its gas estimators

`main` of `executor/src/main.rs` from the loop over the guest's trace chunks to the printed summary.
Worker threads estimate the gas of the chunks while the guest runs, so `main` is a step relation: a
step is one of a worker, or one of the main thread. What the SP1 crates do is a parameter: how the
guest runs (`Guest`) and what estimating a chunk gives (`Estimator`).
-/

namespace RandomXSp1.Executor

inductive GasMode where
  | off
  | calibrated
  | fast
deriving DecidableEq

/-- The one-based inclusive range `SP1_GAS_CHUNK_RANGE` selects. -/
structure GasChunkRange where
  first : ℕ
  last : ℕ
  ne_zero : first ≠ 0
  le : first ≤ last

def GasChunkRange.contains (range : GasChunkRange) (chunk : ℕ) : Bool :=
  range.first ≤ chunk && chunk ≤ range.last

/-- Without the variable, up to `usize::MAX`. -/
def GasChunkRange.all : GasChunkRange :=
  { first := 1, last := 2 ^ 64 - 1, ne_zero := by decide, le := by decide }

/-- The number of workers that `available_parallelism` allows, none where it fails. -/
def availableGasWorkers (availableParallelism : Option ℕ) : ℕ :=
  (availableParallelism.map fun parallelism => min (max (parallelism - 1) 1) 3).getD 1

lemma availableGasWorkers_pos (availableParallelism : Option ℕ) :
    0 < availableGasWorkers availableParallelism := by
  unfold availableGasWorkers
  cases availableParallelism with
  | none => decide
  | some parallelism =>
    simp only [Option.map_some, Option.getD_some]
    omega

/-- How the gas is estimated. Some worker exists whenever it is. The trace slots are for the runner
of the SP1 crates: `try_execute_chunk` waits there until one of the chunks it gave away is dropped. -/
structure GasSettings where
  gasMode : GasMode
  gasTraceThreshold : ℕ
  gasTraceSlots : ℕ
  gasWorkers : ℕ
  gasChunkRange : GasChunkRange
  workers_pos : gasMode ≠ .off → 0 < gasWorkers

/-- The settings of a mode, for the chunk threshold of the core options. -/
def GasSettings.new (gasMode : GasMode) (gasTraceChunkThreshold : ℕ)
    (availableParallelism : Option ℕ) (gasChunkRange : GasChunkRange) : GasSettings :=
  match gasMode with
  | .off =>
    { gasMode := .off, gasTraceThreshold := 0, gasTraceSlots := 0, gasWorkers := 0, gasChunkRange
      workers_pos := fun h => absurd rfl h }
  | .calibrated =>
    { gasMode := .calibrated, gasTraceThreshold := gasTraceChunkThreshold, gasTraceSlots := 1
      gasWorkers := 1, gasChunkRange, workers_pos := fun _ => Nat.one_pos }
  | .fast =>
    { gasMode := .fast, gasTraceThreshold := gasTraceChunkThreshold / 8
      gasTraceSlots := availableGasWorkers availableParallelism + 2
      gasWorkers := availableGasWorkers availableParallelism, gasChunkRange
      workers_pos := fun _ => availableGasWorkers_pos availableParallelism }

/-- A guest's run: the chunks `try_execute_chunk` returns, the error it then ends with if it does,
and what the executor says afterwards. -/
structure Guest (χ : Type) where
  chunks : List χ
  error : Option String
  isDone : Bool
  exitCode : ℕ
  publicValues : List U8
  globalClk : ℕ

/-- `GasEstimatingVMEnum::execute`, none where it panics, and what is used of an
`ExecutionReport`. -/
structure Estimator (χ ρ : Type) where
  execute : χ → Option (Except String ρ)
  default : ρ
  add : ρ → ρ → ρ
  gas : ρ → Option ℕ

inductive Error where
  | executingGuest (error : String)
  | workersStopped
  | workerPanicked
  | noReport
  | gasChunk (error : String)
  | notHalted
  | exitCode (code : ℕ)
  | publicValues (expected actual : List U8)
  | noGas

def hexEncode (bytes : List U8) : String := String.ofList (Audit.encodeHex bytes)

def Error.message : Error → String
  | executingGuest _ => "executing the SP1 guest"
  | workersStopped => "all SP1 gas workers stopped early"
  | workerPanicked => "an SP1 gas worker panicked"
  | noReport => "an SP1 gas worker returned no report"
  | gasChunk error => error
  | notHalted => "the lightweight executor returned before the guest halted"
  | exitCode code => s!"the SP1 guest halted with exit code {code}"
  | publicValues expected actual =>
    s!"unexpected public values: expected {hexEncode expected}, got {hexEncode actual}"
  | noGas => "the SP1 gas estimator returned no PGU count"

section
variable {χ ρ : Type}

/-- A numbered chunk, as it is sent to the workers. -/
abbrev Task (χ : Type) := ℕ × χ

/-- What a worker makes of a task. -/
def Estimator.run (e : Estimator χ ρ) (task : Task χ) : Option (Except String ρ) :=
  (e.execute task.2).map fun result =>
    result.mapError fun error => s!"gas chunk {task.1} failed: {error}"

/-- The lines about gas. -/
def gasLines (e : Estimator χ ρ) (σ : GasSettings) (gasReport : ρ)
    (gasChunks estimatedGasChunks : ℕ) : Except Error (List String) :=
  if σ.gasMode ≠ .off then
    match e.gas gasReport with
    | none => .error .noGas
    | some gas => .ok <|
      (if estimatedGasChunks = gasChunks then [s!"SP1 PGU: {gas}"]
       else [s!"SP1 PGU subtotal: {gas}", "selected gas trace chunks: " ++
          s!"{σ.gasChunkRange.first}:{min σ.gasChunkRange.last gasChunks}"]) ++
      [s!"gas trace chunks: {gasChunks}", s!"estimated gas trace chunks: {estimatedGasChunks}",
        s!"gas trace threshold: {σ.gasTraceThreshold}", s!"gas estimator workers: {σ.gasWorkers}"]
  else .ok []

/-- The rest of `main` once the gas report is complete: its error, or the lines it printed. -/
def conclude (e : Estimator χ ρ) (σ : GasSettings) (guest : Guest χ) (expected : List U8)
    (gasReport : ρ) (gasChunks estimatedGasChunks : ℕ) : Except Error (List String) :=
  if guest.isDone = false then .error .notHalted
  else if guest.exitCode ≠ 0 then .error (.exitCode guest.exitCode)
  else if guest.publicValues ≠ expected then .error (.publicValues expected guest.publicValues)
  else do
    let lines ← gasLines e σ gasReport gasChunks estimatedGasChunks
    .ok <| [s!"SP1 cycles: {guest.globalClk}"] ++ lines ++
      [s!"public values: {hexEncode guest.publicValues}", s!"guest exit code: {guest.exitCode}"]

/-- Where the main thread is. -/
inductive Phase (χ : Type) where
  | executing (rest : List χ)
  | joining (joined : ℕ)
  | collecting (left : ℕ)
  | returned (result : Except Error (List String))

structure State (σ : GasSettings) (χ ρ : Type) where
  phase : Phase χ
  pool : WorkerPool σ.gasWorkers (Task χ) (Except String ρ)
  gasReport : ρ
  gasChunks : ℕ
  estimatedGasChunks : ℕ

variable {σ : GasSettings}

def State.start (σ : GasSettings) (e : Estimator χ ρ) (guest : Guest χ) : State σ χ ρ :=
  { phase := .executing guest.chunks, pool := .start _ _ _, gasReport := e.default
    gasChunks := 0, estimatedGasChunks := 0 }

/-- How many receivers of the work queue exist: that of the main thread and one a live worker. -/
def State.receivers (s : State σ χ ρ) : ℕ :=
  1 + (Finset.univ.filter fun i => (s.pool.workers i).hasEnded = false).card

/-- One step of a worker, or of the main thread. The workers end with the process, so none moves
after `main` returned. A step that takes up a chunk assumes that `try_execute_chunk` returns it,
however many trace slots are in use. -/
inductive Step (e : Estimator χ ρ) (guest : Guest χ) (expected : List U8) :
    State σ χ ρ → State σ χ ρ → Prop
  | worker {s : State σ χ ρ} {pool : WorkerPool σ.gasWorkers (Task χ) (Except String ρ)}
      (hmain : ∀ result, s.phase ≠ .returned result) (h : s.pool.Step e.run pool) :
      Step e guest expected s { s with pool }
  -- the loop over the chunks
  | executed {s : State σ χ ρ} (chunk : χ) (rest : List χ)
      (hphase : s.phase = .executing (chunk :: rest)) (hmode : σ.gasMode = .off) :
      Step e guest expected s { s with phase := .executing rest }
  | skipped {s : State σ χ ρ} (chunk : χ) (rest : List χ)
      (hphase : s.phase = .executing (chunk :: rest)) (hmode : σ.gasMode ≠ .off)
      (hrange : σ.gasChunkRange.contains (s.gasChunks + 1) = false) :
      Step e guest expected s { s with phase := .executing rest, gasChunks := s.gasChunks + 1 }
  | sent {s : State σ χ ρ} (chunk : χ) (rest : List χ)
      (hphase : s.phase = .executing (chunk :: rest)) (hmode : σ.gasMode ≠ .off)
      (hrange : σ.gasChunkRange.contains (s.gasChunks + 1) = true) (hreceivers : s.receivers ≠ 0) :
      Step e guest expected s
        { s with
          phase := .executing rest
          gasChunks := s.gasChunks + 1
          estimatedGasChunks := s.estimatedGasChunks + 1
          pool := s.pool.push (s.gasChunks + 1, chunk) }
  | workersStopped {s : State σ χ ρ} (chunk : χ) (rest : List χ)
      (hphase : s.phase = .executing (chunk :: rest)) (hmode : σ.gasMode ≠ .off)
      (hrange : σ.gasChunkRange.contains (s.gasChunks + 1) = true) (hreceivers : s.receivers = 0) :
      Step e guest expected s { s with phase := .returned (.error .workersStopped) }
  | failed {s : State σ χ ρ} (error : String) (hphase : s.phase = .executing [])
      (herror : guest.error = some error) :
      Step e guest expected s { s with phase := .returned (.error (.executingGuest error)) }
  | finished {s : State σ χ ρ} (hphase : s.phase = .executing []) (herror : guest.error = none)
      (hmode : σ.gasMode = .off) :
      Step e guest expected s
        { s with phase := .returned (conclude e σ guest expected s.gasReport s.gasChunks
            s.estimatedGasChunks) }
  | closed {s : State σ χ ρ} (hphase : s.phase = .executing []) (herror : guest.error = none)
      (hmode : σ.gasMode ≠ .off) :
      Step e guest expected s { s with phase := .joining 0, pool := s.pool.close }
  -- `join`, worker by worker
  | joined {s : State σ χ ρ} (i : Fin σ.gasWorkers) (hphase : s.phase = .joining i)
      (hworker : s.pool.workers i = .stopped) :
      Step e guest expected s { s with phase := .joining (i + 1) }
  | joinFailed {s : State σ χ ρ} (i : Fin σ.gasWorkers) (hphase : s.phase = .joining i)
      (task : Task χ) (hworker : s.pool.workers i = .panicked task) :
      Step e guest expected s { s with phase := .returned (.error .workerPanicked) }
  | allJoined {s : State σ χ ρ} (hphase : s.phase = .joining σ.gasWorkers) :
      Step e guest expected s { s with phase := .collecting s.estimatedGasChunks }
  -- the reports
  | reported {s : State σ χ ρ} (left : ℕ) (hphase : s.phase = .collecting (left + 1)) (report : ρ)
      (rest : List (Except String ρ)) (hresults : s.pool.results = .ok report :: rest) :
      Step e guest expected s
        { s with
          phase := .collecting left
          gasReport := e.add s.gasReport report
          pool := { s.pool with results := rest } }
  | chunkFailed {s : State σ χ ρ} (left : ℕ) (hphase : s.phase = .collecting (left + 1))
      (error : String) (rest : List (Except String ρ))
      (hresults : s.pool.results = .error error :: rest) :
      Step e guest expected s { s with phase := .returned (.error (.gasChunk error)) }
  | noReport {s : State σ χ ρ} (left : ℕ) (hphase : s.phase = .collecting (left + 1))
      (hresults : s.pool.results = []) (hsenders : ∀ i, (s.pool.workers i).hasEnded = true) :
      Step e guest expected s { s with phase := .returned (.error .noReport) }
  | collected {s : State σ χ ρ} (hphase : s.phase = .collecting 0) :
      Step e guest expected s
        { s with phase := .returned (conclude e σ guest expected s.gasReport s.gasChunks
            s.estimatedGasChunks) }

/-- The states of the runs of `main`, over every interleaving. -/
def Reachable (e : Estimator χ ρ) (guest : Guest χ) (expected : List U8) (s : State σ χ ρ) : Prop :=
  Relation.ReflTransGen (Step e guest expected) (.start σ e guest) s

end

end RandomXSp1.Executor
