import RandomXSp1.Executor.GasEstimation

/-!
# Every interleaving of the executor

Whatever order the main thread and the workers move in, `main` returns, and what it returns is what
running the chunks one after the other calls for: no report is lost or counted twice.
-/

namespace RandomXSp1.Executor

section
variable {χ ρ : Type} {σ : GasSettings} {e : Estimator χ ρ} {guest : Guest χ} {expected : List U8}
  {s s' : State σ χ ρ} {taken : List ρ}

/-! ## What `main` should return -/

/-- The chunks that are counted. -/
def GasSettings.counted (σ : GasSettings) (chunks : List χ) : List χ :=
  if σ.gasMode = .off then [] else chunks

/-- The numbered chunks that are estimated. -/
def GasSettings.tasks (σ : GasSettings) (chunks : List χ) : List (Task χ) :=
  (((σ.counted chunks).zipIdx 1).map Prod.swap).filter fun task => σ.gasChunkRange.contains task.1

/-- The results of `main` that a run of the guest and the estimates of its chunks allow. -/
inductive Verdict (σ : GasSettings) (e : Estimator χ ρ) (guest : Guest χ) (expected : List U8) :
    Except Error (List String) → Prop
  | guestFailed (error : String) (h : guest.error = some error) :
      Verdict σ e guest expected (.error (.executingGuest error))
  | panicked (hguest : guest.error = none) (task : Task χ) (hmem : task ∈ σ.tasks guest.chunks)
      (h : e.execute task.2 = none) : Verdict σ e guest expected (.error .workerPanicked)
  | chunkFailed (hguest : guest.error = none) (task : Task χ) (hmem : task ∈ σ.tasks guest.chunks)
      (error : String) (h : e.execute task.2 = some (.error error)) :
      Verdict σ e guest expected
        (.error (.gasChunk s!"gas chunk {task.1} failed: {error}"))
  | estimated (hguest : guest.error = none) (reports order : List ρ)
      (hreports : (σ.tasks guest.chunks).map (fun task => e.execute task.2)
        = reports.map fun report => some (.ok report))
      (horder : order.Perm reports) :
      Verdict σ e guest expected (conclude e σ guest expected (order.foldl e.add e.default)
        (σ.counted guest.chunks).length (σ.tasks guest.chunks).length)

/-! ## Counting the chunks -/

lemma counted_of_ne (hmode : σ.gasMode ≠ .off) (chunks : List χ) : σ.counted chunks = chunks :=
  if_neg hmode

lemma counted_of_off (hmode : σ.gasMode = .off) (chunks : List χ) : σ.counted chunks = [] :=
  if_pos hmode

lemma tasks_of_off (hmode : σ.gasMode = .off) (chunks : List χ) : σ.tasks chunks = [] := by
  unfold GasSettings.tasks
  rw [counted_of_off hmode]
  rfl

lemma tasks_append (hmode : σ.gasMode ≠ .off) (chunks : List χ) (chunk : χ) :
    σ.tasks (chunks ++ [chunk]) = σ.tasks chunks ++
      if σ.gasChunkRange.contains (chunks.length + 1) then [(chunks.length + 1, chunk)]
      else [] := by
  unfold GasSettings.tasks
  rw [counted_of_ne hmode, counted_of_ne hmode, List.zipIdx_append, List.map_append,
    List.filter_append, Nat.add_comm 1]
  congr 1
  simp only [List.zipIdx_singleton, List.map_cons, List.map_nil, Prod.swap_prod_mk]
  split <;> simp_all

lemma run_eq_error {task : Task χ} {message : String} (h : e.run task = some (.error message)) :
    ∃ error, e.execute task.2 = some (.error error)
      ∧ message = s!"gas chunk {task.1} failed: {error}" := by
  obtain ⟨result, hresult, hmap⟩ := Option.map_eq_some_iff.mp h
  cases result with
  | error error =>
    cases hmap
    exact ⟨error, hresult, rfl⟩
  | ok report => cases hmap

lemma execute_eq_run {task : Task χ} {report : ρ} (h : e.run task = some (.ok report)) :
    e.execute task.2 = e.run task := by
  obtain ⟨result, hresult, hmap⟩ := Option.map_eq_some_iff.mp h
  cases result with
  | error error => cases hmap
  | ok report' => rw [h, hresult, ← hmap]; rfl

/-- A list of values of `g` in another order. -/
lemma exists_map_eq_of_perm {α β : Type} {g : α → β} (hg : g.Injective) {l : List β} {m : List α}
    (h : l.Perm (m.map g)) : ∃ m' : List α, m'.map g = l ∧ m'.Perm m := by
  have hl : l ∈ Set.range (List.map g) := by
    rw [Set.range_list_map]
    intro b hb
    obtain ⟨a, -, ha⟩ := List.mem_map.mp (h.mem_iff.mp hb)
    exact ⟨a, ha⟩
  obtain ⟨m', rfl⟩ := hl
  exact ⟨m', rfl, (List.map_perm_map_iff hg).mp h⟩

/-! ## The books of a run -/

/-- The counters and the pool after the chunks `done`, when the reports `taken` are added up. -/
structure Books (e : Estimator χ ρ) (done : List χ) (taken : List ρ) (s : State σ χ ρ) : Prop where
  gasChunks : s.gasChunks = (σ.counted done).length
  estimatedGasChunks : s.estimatedGasChunks = (σ.tasks done).length
  gasReport : s.gasReport = taken.foldl e.add e.default
  accounts : s.pool.Accounts e.run ↑(σ.tasks done) (taken.map .ok)

/-- What holds in every phase. -/
def Kept (e : Estimator χ ρ) (guest : Guest χ) (expected : List U8) (s : State σ χ ρ) : Prop :=
  match s.phase with
  | .executing rest =>
    s.pool.closed = false ∧ ∃ done, done ++ rest = guest.chunks ∧ Books e done [] s
  | .joining joined =>
    guest.error = none ∧ σ.gasMode ≠ .off ∧ s.pool.closed = true ∧ joined ≤ σ.gasWorkers
      ∧ (∀ i : Fin σ.gasWorkers, i < joined → s.pool.workers i = .stopped)
      ∧ Books e guest.chunks [] s
  | .collecting left =>
    guest.error = none ∧ σ.gasMode ≠ .off ∧ (∀ i, s.pool.workers i = .stopped)
      ∧ ∃ taken, left + taken.length = (σ.tasks guest.chunks).length ∧ Books e guest.chunks taken s
  | .returned result => Verdict σ e guest expected result

lemma Books.worker {done : List χ} (h : Books e done taken s)
    {pool : WorkerPool σ.gasWorkers (Task χ) (Except String ρ)}
    (hstep : s.pool.Step e.run pool) : Books e done taken { s with pool } :=
  { gasChunks := h.gasChunks, estimatedGasChunks := h.estimatedGasChunks, gasReport := h.gasReport
    accounts := h.accounts.step hstep }

lemma Kept.worker (h : Kept e guest expected s)
    {pool : WorkerPool σ.gasWorkers (Task χ) (Except String ρ)}
    (hmain : ∀ result, s.phase ≠ .returned result) (hstep : s.pool.Step e.run pool) :
    Kept e guest expected { s with pool } := by
  obtain ⟨phase, pool', gasReport, gasChunks, estimatedGasChunks⟩ := s
  cases phase with
  | executing rest =>
    obtain ⟨hopen, done, hdone, hbooks⟩ := h
    exact ⟨hstep.closed_eq.trans hopen, done, hdone, hbooks.worker hstep⟩
  | joining joined =>
    obtain ⟨hguest, hmode, hclosed, hjoined, hstopped, hbooks⟩ := h
    exact ⟨hguest, hmode, hstep.closed_eq.trans hclosed, hjoined,
      fun i hi => hstep.stopped (hstopped i hi), hbooks.worker hstep⟩
  | collecting left =>
    obtain ⟨hguest, hmode, hstopped, taken, hleft, hbooks⟩ := h
    exact ⟨hguest, hmode, fun i => hstep.stopped (hstopped i), taken, hleft, hbooks.worker hstep⟩
  | returned result => exact absurd rfl (hmain result)

/-! ## The main thread -/

lemma Kept.of_executing {rest : List χ} (h : Kept e guest expected s)
    (hphase : s.phase = .executing rest) :
    s.pool.closed = false ∧ ∃ done, done ++ rest = guest.chunks ∧ Books e done [] s := by
  unfold Kept at h
  rw [hphase] at h
  exact h

lemma Kept.of_joining {joined : ℕ} (h : Kept e guest expected s)
    (hphase : s.phase = .joining joined) :
    guest.error = none ∧ σ.gasMode ≠ .off ∧ s.pool.closed = true ∧ joined ≤ σ.gasWorkers
      ∧ (∀ i : Fin σ.gasWorkers, i < joined → s.pool.workers i = .stopped)
      ∧ Books e guest.chunks [] s := by
  unfold Kept at h
  rw [hphase] at h
  exact h

lemma Kept.of_collecting {left : ℕ} (h : Kept e guest expected s)
    (hphase : s.phase = .collecting left) :
    guest.error = none ∧ σ.gasMode ≠ .off ∧ (∀ i, s.pool.workers i = .stopped)
      ∧ ∃ taken, left + taken.length = (σ.tasks guest.chunks).length
        ∧ Books e guest.chunks taken s := by
  unfold Kept at h
  rw [hphase] at h
  exact h

lemma Kept.start (σ : GasSettings) (e : Estimator χ ρ) (guest : Guest χ) (expected : List U8) :
    Kept e guest expected (.start σ e guest) := by
  have htasks : σ.tasks ([] : List χ) = [] := by
    unfold GasSettings.tasks GasSettings.counted
    rw [ite_self]
    rfl
  refine ⟨rfl, [], rfl, ?_, ?_, rfl, ?_⟩
  · unfold GasSettings.counted
    rw [ite_self]
    rfl
  · rw [htasks]
    rfl
  · rw [htasks]
    exact .start _

/-- A chunk is counted, and sent if it is in the range. -/
lemma Kept.next (h : Kept e guest expected s) {chunk : χ} {rest : List χ}
    (hphase : s.phase = .executing (chunk :: rest)) (hmode : σ.gasMode ≠ .off) :
    if σ.gasChunkRange.contains (s.gasChunks + 1) = true then
      Kept e guest expected
        { s with
          phase := .executing rest
          gasChunks := s.gasChunks + 1
          estimatedGasChunks := s.estimatedGasChunks + 1
          pool := s.pool.push (s.gasChunks + 1, chunk) }
    else
      Kept e guest expected { s with phase := .executing rest, gasChunks := s.gasChunks + 1 } := by
  obtain ⟨hopen, done, hdone, hbooks⟩ := h.of_executing hphase
  have hchunks := hbooks.gasChunks
  rw [counted_of_ne hmode] at hchunks
  have hdone' : (done ++ [chunk]) ++ rest = guest.chunks := by rw [← hdone, List.append_assoc]; rfl
  have hcount : s.gasChunks + 1 = (σ.counted (done ++ [chunk])).length := by
    rw [counted_of_ne hmode, List.length_append, hchunks]
    rfl
  have htasks := tasks_append hmode done chunk
  rw [← hchunks] at htasks
  split
  · rename_i hrange
    rw [if_pos hrange] at htasks
    refine ⟨hopen, done ++ [chunk], hdone', hcount, ?_, hbooks.gasReport, ?_⟩
    · rw [htasks, List.length_append, ← hbooks.estimatedGasChunks]
      rfl
    · rw [htasks]
      exact hbooks.accounts.push hopen _
  · rename_i hrange
    rw [if_neg hrange, List.append_nil] at htasks
    refine ⟨hopen, done ++ [chunk], hdone', hcount, ?_, hbooks.gasReport, ?_⟩
    · rw [htasks]
      exact hbooks.estimatedGasChunks
    · rw [htasks]
      exact hbooks.accounts

/-- Without estimation a chunk is dropped. -/
lemma Kept.executed (h : Kept e guest expected s) {chunk : χ} {rest : List χ}
    (hphase : s.phase = .executing (chunk :: rest)) (hmode : σ.gasMode = .off) :
    Kept e guest expected { s with phase := .executing rest } := by
  obtain ⟨hopen, done, hdone, hbooks⟩ := h.of_executing hphase
  have htasks (chunks : List χ) : σ.tasks chunks = σ.tasks done := by
    rw [tasks_of_off hmode, tasks_of_off hmode]
  refine ⟨hopen, done ++ [chunk], ?_, ?_, ?_, hbooks.gasReport, ?_⟩
  · rw [← hdone, List.append_assoc]
    rfl
  · rw [counted_of_off hmode, ← counted_of_off hmode done]
    exact hbooks.gasChunks
  · rw [htasks]
    exact hbooks.estimatedGasChunks
  · rw [htasks]
    exact hbooks.accounts

/-- With every worker joined and `taken` added up, the estimates that are still in the channel are
those missing. -/
lemma Books.results (h : Books e guest.chunks taken s) (hmode : σ.gasMode ≠ .off)
    (hstopped : ∀ i, s.pool.workers i = .stopped) :
    ((σ.tasks guest.chunks).map e.run).Perm ((taken.map Except.ok ++ s.pool.results).map some) :=
  Multiset.coe_eq_coe.mp (h.accounts.drained (σ.workers_pos hmode) hstopped)

lemma Books.length_results (h : Books e guest.chunks taken s) (hmode : σ.gasMode ≠ .off)
    (hstopped : ∀ i, s.pool.workers i = .stopped) :
    (σ.tasks guest.chunks).length = taken.length + s.pool.results.length := by
  have hlength := (h.results hmode hstopped).length_eq
  rwa [List.length_map, List.length_map, List.length_append, List.length_map] at hlength

/-- All reports are in. -/
lemma verdict_of_collected (h : Kept e guest expected s) (hphase : s.phase = .collecting 0) :
    Verdict σ e guest expected
      (conclude e σ guest expected s.gasReport s.gasChunks s.estimatedGasChunks) := by
  obtain ⟨hguest, hmode, hstopped, taken, hleft, hbooks⟩ := h.of_collecting hphase
  have hlength := hbooks.length_results hmode hstopped
  have hresults : s.pool.results = [] := List.length_eq_zero_iff.mp (by omega)
  have hperm := hbooks.results hmode hstopped
  rw [hresults, List.append_nil, List.map_map] at hperm
  have hinj : (some ∘ Except.ok (ε := String) : ρ → _).Injective := by
    intro a b hab
    cases hab
    rfl
  obtain ⟨reports, hreports, horder⟩ := exists_map_eq_of_perm hinj hperm
  rw [hbooks.gasReport, hbooks.gasChunks, hbooks.estimatedGasChunks]
  refine .estimated hguest reports taken ?_ horder.symm
  show _ = reports.map (some ∘ Except.ok)
  rw [hreports]
  apply List.map_congr_left
  intro task htask
  have hrun : e.run task ∈ reports.map (some ∘ Except.ok) := hreports ▸ List.mem_map_of_mem htask
  obtain ⟨report, -, hreport⟩ := List.mem_map.mp hrun
  exact execute_eq_run hreport.symm

/-- The first report is an error: that of some chunk. -/
lemma verdict_of_chunkFailed (h : Kept e guest expected s) {left : ℕ}
    (hphase : s.phase = .collecting left) {message : String} {rest : List (Except String ρ)}
    (hresults : s.pool.results = .error message :: rest) :
    Verdict σ e guest expected (.error (.gasChunk message)) := by
  obtain ⟨hguest, hmode, hstopped, taken, -, hbooks⟩ := h.of_collecting hphase
  have hmem : some (.error message) ∈ (σ.tasks guest.chunks).map e.run := by
    rw [(hbooks.results hmode hstopped).mem_iff, hresults]
    exact List.mem_map_of_mem (List.mem_append_right _ List.mem_cons_self)
  obtain ⟨task, htask, hrun⟩ := List.mem_map.mp hmem
  obtain ⟨error, herror, rfl⟩ := run_eq_error hrun
  exact .chunkFailed hguest task htask error herror

lemma Kept.reported (h : Kept e guest expected s) {left : ℕ}
    (hphase : s.phase = .collecting (left + 1)) {report : ρ} {rest : List (Except String ρ)}
    (hresults : s.pool.results = .ok report :: rest) :
    Kept e guest expected
      { s with
        phase := .collecting left
        gasReport := e.add s.gasReport report
        pool := { s.pool with results := rest } } := by
  obtain ⟨hguest, hmode, hstopped, taken, hleft, hbooks⟩ := h.of_collecting hphase
  refine ⟨hguest, hmode, hstopped, taken ++ [report], ?_, hbooks.gasChunks,
    hbooks.estimatedGasChunks, ?_, ?_⟩
  · rw [List.length_append, ← hleft]
    show left + (taken.length + 1) = _
    omega
  · rw [List.foldl_append, ← hbooks.gasReport]
    rfl
  · rw [List.map_append]
    exact hbooks.accounts.take hresults

theorem Kept.step (h : Kept e guest expected s) (hstep : Step e guest expected s s') :
    Kept e guest expected s' := by
  cases hstep with
  | worker hmain hpool => exact h.worker hmain hpool
  | executed chunk rest hphase hmode => exact h.executed hphase hmode
  | skipped chunk rest hphase hmode hrange =>
    have hnext := h.next hphase hmode
    rwa [if_neg (by rw [hrange]; decide)] at hnext
  | sent chunk rest hphase hmode hrange _ =>
    have hnext := h.next hphase hmode
    rwa [if_pos hrange] at hnext
  | workersStopped chunk rest hphase _ _ hreceivers =>
    -- the main thread has a receiver of its own
    unfold State.receivers at hreceivers
    omega
  | failed error hphase herror => exact .guestFailed error herror
  | finished hphase herror hmode =>
    obtain ⟨-, done, hdone, hbooks⟩ := h.of_executing hphase
    rw [List.append_nil] at hdone
    subst hdone
    -- without estimation there were no tasks: the verdict is that of no reports
    rw [hbooks.gasReport, hbooks.gasChunks, hbooks.estimatedGasChunks]
    refine .estimated herror [] [] ?_ (.refl _)
    rw [tasks_of_off hmode]
    rfl
  | closed hphase herror hmode =>
    obtain ⟨-, done, hdone, hbooks⟩ := h.of_executing hphase
    rw [List.append_nil] at hdone
    subst hdone
    exact ⟨herror, hmode, rfl, Nat.zero_le _, fun i hi => absurd hi (Nat.not_lt_zero _),
      hbooks.gasChunks, hbooks.estimatedGasChunks, hbooks.gasReport, hbooks.accounts.close⟩
  | joined i hphase hworker =>
    obtain ⟨hguest, hmode, hclosed, hjoined, hstopped, hbooks⟩ := h.of_joining hphase
    refine ⟨hguest, hmode, hclosed, i.isLt, fun j hj => ?_, hbooks.gasChunks,
      hbooks.estimatedGasChunks, hbooks.gasReport, hbooks.accounts⟩
    rcases Nat.lt_succ_iff_lt_or_eq.mp hj with hlt | heq
    · exact hstopped j hlt
    · rw [Fin.ext heq]
      exact hworker
  | joinFailed i hphase task hworker =>
    obtain ⟨hguest, -, -, -, -, hbooks⟩ := h.of_joining hphase
    have hmem := hbooks.accounts.mem_sent_of_panicked hworker
    have hpanic := hbooks.accounts.panicked i task hworker
    -- the worker took its task from the queue, so it was one of those sent
    exact .panicked hguest task (Multiset.mem_coe.mp hmem) (Option.map_eq_none_iff.mp hpanic)
  | allJoined hphase =>
    obtain ⟨hguest, hmode, -, -, hstopped, hbooks⟩ := h.of_joining hphase
    exact ⟨hguest, hmode, fun i => hstopped i i.isLt, [], hbooks.estimatedGasChunks,
      hbooks.gasChunks, hbooks.estimatedGasChunks, hbooks.gasReport, hbooks.accounts⟩
  | reported left hphase report rest hresults => exact h.reported hphase hresults
  | chunkFailed left hphase error rest hresults => exact verdict_of_chunkFailed h hphase hresults
  | noReport left hphase hresults _ =>
    obtain ⟨-, hmode, hstopped, taken, hleft, hbooks⟩ := h.of_collecting hphase
    -- an estimate is missing, so the channel holds it
    have hlength := hbooks.length_results hmode hstopped
    rw [hresults, List.length_nil] at hlength
    omega
  | collected hphase => exact verdict_of_collected h hphase

theorem kept_of_reachable (h : Reachable e guest expected s) : Kept e guest expected s := by
  induction h with
  | refl => exact .start σ e guest expected
  | tail _ hstep ih => exact ih.step hstep

/-! ## Every run ends -/

theorem Kept.exists_step (h : Kept e guest expected s)
    (hmain : ∀ result, s.phase ≠ .returned result) : ∃ s', Step e guest expected s s' := by
  cases hphase : s.phase with
  | executing rest =>
    cases rest with
    | cons chunk rest =>
      by_cases hmode : σ.gasMode = .off
      · exact ⟨_, .executed chunk rest hphase hmode⟩
      · cases hrange : σ.gasChunkRange.contains (s.gasChunks + 1) with
        | false => exact ⟨_, .skipped chunk rest hphase hmode hrange⟩
        | true =>
          by_cases hreceivers : s.receivers = 0
          · exact ⟨_, .workersStopped chunk rest hphase hmode hrange hreceivers⟩
          · exact ⟨_, .sent chunk rest hphase hmode hrange hreceivers⟩
    | nil =>
      cases herror : guest.error with
      | some error => exact ⟨_, .failed error hphase herror⟩
      | none =>
        by_cases hmode : σ.gasMode = .off
        · exact ⟨_, .finished hphase herror hmode⟩
        · exact ⟨_, .closed hphase herror hmode⟩
  | joining joined =>
    obtain ⟨-, -, hclosed, hjoined, -, -⟩ := h.of_joining hphase
    rcases hjoined.lt_or_eq with hlt | rfl
    · -- the worker it waits for
      cases hworker : s.pool.workers ⟨joined, hlt⟩ with
      | stopped => exact ⟨_, .joined ⟨joined, hlt⟩ hphase hworker⟩
      | panicked task => exact ⟨_, .joinFailed ⟨joined, hlt⟩ hphase task hworker⟩
      | idle | receiving | running =>
        obtain ⟨pool, hpool⟩ := s.pool.exists_step e.run (.inl hclosed) (i := ⟨joined, hlt⟩)
          (by rw [hworker]; rfl)
        exact ⟨_, .worker hmain hpool⟩
    · exact ⟨_, .allJoined hphase⟩
  | collecting left =>
    obtain ⟨-, -, hstopped, -⟩ := h.of_collecting hphase
    cases left with
    | zero => exact ⟨_, .collected hphase⟩
    | succ left =>
      match hresults : s.pool.results with
      | [] => exact ⟨_, .noReport left hphase hresults fun i => by rw [hstopped i]; rfl⟩
      | .ok report :: rest => exact ⟨_, .reported left hphase report rest hresults⟩
      | .error error :: rest => exact ⟨_, .chunkFailed left hphase error rest hresults⟩
  | returned result => exact absurd hphase (hmain result)

/-- How many steps are left at most. -/
def State.weight (s : State σ χ ρ) : ℕ :=
  match s.phase with
  | .executing rest =>
    s.pool.weight + 6 * rest.length + s.estimatedGasChunks + σ.gasWorkers + 3
  | .joining joined => s.pool.weight + (σ.gasWorkers - joined) + s.estimatedGasChunks + 2
  | .collecting left => s.pool.weight + left + 1
  | .returned _ => 0

lemma weight_worker {pool : WorkerPool σ.gasWorkers (Task χ) (Except String ρ)}
    (hmain : ∀ result, s.phase ≠ .returned result) (h : pool.weight < s.pool.weight) :
    State.weight { s with pool } < s.weight := by
  obtain ⟨phase, pool', gasReport, gasChunks, estimatedGasChunks⟩ := s
  have h : pool.weight < pool'.weight := h
  cases phase with
  | executing rest => simp only [State.weight]; omega
  | joining joined => simp only [State.weight]; omega
  | collecting left => simp only [State.weight]; omega
  | returned result => exact absurd rfl (hmain result)

theorem weight_step (hstep : Step e guest expected s s') : s'.weight < s.weight := by
  cases hstep with
  | worker hmain hpool => exact weight_worker hmain (WorkerPool.weight_step hpool)
  | sent chunk rest hphase =>
    -- four for the task in the queue and one for its report, out of the six of the chunk
    simp only [State.weight, hphase, List.length_cons, WorkerPool.weight_push]
    omega
  | closed hphase =>
    show s.pool.weight + (σ.gasWorkers - 0) + s.estimatedGasChunks + 2 < _
    simp only [State.weight, hphase]
    omega
  | joined i hphase =>
    have hlt := i.isLt
    simp only [State.weight, hphase]
    omega
  | reported left hphase =>
    show s.pool.weight + left + 1 < _
    simp only [State.weight, hphase]
    omega
  | executed chunk rest hphase | skipped chunk rest hphase =>
    simp only [State.weight, hphase, List.length_cons]
    omega
  | workersStopped chunk rest hphase | failed _ hphase | finished hphase | joinFailed _ hphase
  | chunkFailed _ hphase | noReport _ hphase | collected hphase =>
    simp only [State.weight, hphase]
    omega
  | allJoined hphase =>
    simp only [State.weight, hphase]
    omega

lemma weight_start (σ : GasSettings) (e : Estimator χ ρ) (guest : Guest χ) :
    (State.start σ e guest).weight = 6 * guest.chunks.length + 3 * σ.gasWorkers + 3 := by
  show 4 * 0 + ∑ _ : Fin σ.gasWorkers, 2 + 6 * guest.chunks.length + 0 + σ.gasWorkers + 3 = _
  rw [Finset.sum_const, Finset.card_univ, Fintype.card_fin, smul_eq_mul]
  omega

lemma weight_run {states : List (State σ χ ρ)}
    (hrun : List.IsChain (Step e guest expected) (s :: states)) : states.length ≤ s.weight := by
  induction states generalizing s with
  | nil => exact Nat.zero_le _
  | cons s' states ih =>
    obtain ⟨hstep, hrun⟩ := List.isChain_cons_cons.mp hrun
    have hlength := ih hrun
    have hweight := weight_step hstep
    rw [List.length_cons]
    omega

/-- Nothing moves once `main` returned. -/
lemma not_step_of_returned {result : Except Error (List String)}
    (hphase : s.phase = .returned result)
    (s' : State σ χ ρ) : ¬Step e guest expected s s' := by
  intro hstep
  cases hstep with
  | worker hmain => exact hmain result hphase
  | executed _ _ h | skipped _ _ h | sent _ _ h | workersStopped _ _ h | failed _ h | finished h
  | closed h | joined _ h | joinFailed _ h | allJoined h | reported _ h | chunkFailed _ h
  | noReport _ h | collected h =>
    rw [hphase] at h
    cases h

lemma Kept.stuck_iff (h : Kept e guest expected s) :
    (∀ s', ¬Step e guest expected s s') ↔ ∃ result, s.phase = .returned result := by
  constructor
  · intro hstuck
    by_contra hmain
    push Not at hmain
    obtain ⟨s', hstep⟩ := h.exists_step hmain
    exact hstuck s' hstep
  · rintro ⟨result, hphase⟩
    exact not_step_of_returned hphase

lemma verdict_of_returned (h : Reachable e guest expected s) {result : Except Error (List String)}
    (hphase : s.phase = .returned result) : Verdict σ e guest expected result := by
  have hkept := kept_of_reachable h
  unfold Kept at hkept
  rw [hphase] at hkept
  exact hkept

/-- Every reachable state can go on until `main` returns. -/
lemma exists_returned (h : Reachable e guest expected s) :
    ∃ (s' : State σ χ ρ) (result : Except Error (List String)),
      Reachable e guest expected s' ∧ s'.phase = .returned result := by
  induction hweight : s.weight using Nat.strong_induction_on generalizing s with
  | _ n ih =>
    by_cases hmain : ∃ result, s.phase = .returned result
    · obtain ⟨result, hphase⟩ := hmain
      exact ⟨s, result, h, hphase⟩
    · push Not at hmain
      obtain ⟨s', hstep⟩ := (kept_of_reachable h).exists_step hmain
      -- the weight decreases, so the induction is on it
      exact ih s'.weight (hweight ▸ weight_step hstep) (h.tail hstep) rfl

/-- Every run is bounded, is stuck only where `main` returned, and returns nothing but what the
guest and the estimates of its chunks allow. -/
theorem main_returns (states : List (State σ χ ρ))
    (hrun : List.IsChain (Step e guest expected) (.start σ e guest :: states))
    (hlast : (State.start σ e guest :: states).getLast (List.cons_ne_nil _ _) = s) :
    states.length ≤ 6 * guest.chunks.length + 3 * σ.gasWorkers + 3 ∧
      ((∀ s', ¬Step e guest expected s s') ↔ ∃ result, s.phase = .returned result) ∧
      ∀ result, s.phase = .returned result → Verdict σ e guest expected result := by
  have hreachable : Reachable e guest expected s :=
    List.relationReflTransGen_of_exists_isChain_cons states hrun hlast
  refine ⟨?_, (kept_of_reachable hreachable).stuck_iff, ?_⟩
  · rw [← weight_start σ e guest]
    exact weight_run hrun
  · intro result hphase
    exact verdict_of_returned hreachable hphase

/-- An estimator whose reports are numbers, and a guest of two chunks. -/
def countedGas : Estimator ℕ ℕ :=
  { execute := fun chunk => some (.ok chunk), default := 0, add := (· + ·), gas := some }

def twoChunks : Guest ℕ :=
  { chunks := [5, 7], error := none, isDone := true, exitCode := 0, publicValues := []
    globalClk := 9 }

theorem main_returns_twoChunks :
    ∃ (states : List (State (.new .fast 8 (some 4) .all) ℕ ℕ))
      (result : Except Error (List String)),
      List.IsChain (Step countedGas twoChunks []) (.start _ countedGas twoChunks :: states)
        ∧ states.length ≤ 24
        ∧ Verdict (.new .fast 8 (some 4) .all) countedGas twoChunks [] result := by
  have hstart : Reachable countedGas twoChunks []
      (.start (.new .fast 8 (some 4) .all) countedGas twoChunks) := .refl
  obtain ⟨s, result, hs, hphase⟩ := exists_returned hstart
  obtain ⟨states, hrun, hlast⟩ := List.exists_isChain_cons_of_relationReflTransGen hs
  obtain ⟨hlength, -, hverdict⟩ := main_returns states hrun hlast
  exact ⟨states, result, hrun, hlength, hverdict result hphase⟩

/-! ## One chunk after the other -/

/-- Adding the estimate of one chunk. -/
def addEstimate (e : Estimator χ ρ) (gasReport : ρ) (task : Task χ) : Except Error ρ :=
  match e.run task with
  | none => .error .workerPanicked
  | some (.error error) => .error (.gasChunk error)
  | some (.ok report) => .ok (e.add gasReport report)

/-- `main` without threads. -/
def sequentialMain (σ : GasSettings) (e : Estimator χ ρ) (guest : Guest χ) (expected : List U8) :
    Except Error (List String) :=
  match guest.error with
  | some error => .error (.executingGuest error)
  | none => do
    let gasReport ← (σ.tasks guest.chunks).foldlM (addEstimate e) e.default
    conclude e σ guest expected gasReport (σ.counted guest.chunks).length
      (σ.tasks guest.chunks).length

lemma foldlM_addEstimate_ok {tasks : List (Task χ)} {reports : List ρ}
    (h : tasks.map (fun task => e.execute task.2) = reports.map fun report => some (.ok report))
    (gasReport : ρ) :
    tasks.foldlM (addEstimate e) gasReport = .ok (reports.foldl e.add gasReport) := by
  induction tasks generalizing reports gasReport with
  | nil =>
    cases reports with
    | nil => rfl
    | cons report reports => cases h
  | cons task tasks ih =>
    cases reports with
    | nil => cases h
    | cons report reports =>
      obtain ⟨hhead, htail⟩ := List.cons_eq_cons.mp h
      have hhead : e.execute task.2 = some (.ok report) := hhead
      have hadd : addEstimate e gasReport task = .ok (e.add gasReport report) := by
        unfold addEstimate Estimator.run
        rw [hhead]
        rfl
      rw [List.foldlM_cons, hadd]
      exact ih htail _

/-- The error that `main` returns on account of this task, where its estimate fails. -/
def Estimator.failure (e : Estimator χ ρ) (task : Task χ) : Option Error :=
  match e.run task with
  | none => some .workerPanicked
  | some (.error error) => some (.gasChunk error)
  | some (.ok _) => none

lemma failure_of_addEstimate {gasReport : ρ} {task : Task χ} {error : Error}
    (h : addEstimate e gasReport task = .error error) : e.failure task = some error := by
  unfold addEstimate at h
  unfold Estimator.failure
  cases hrun : e.run task with
  | none =>
    rw [hrun] at h
    exact congrArg some (Except.error.inj h)
  | some result =>
    rw [hrun] at h
    cases result with
    | error message => exact congrArg some (Except.error.inj h)
    | ok report => cases h

lemma addEstimate_of_failure {task : Task χ} {error : Error} (h : e.failure task = some error)
    (gasReport : ρ) : addEstimate e gasReport task = .error error := by
  unfold Estimator.failure at h
  unfold addEstimate
  cases hrun : e.run task with
  | none =>
    rw [hrun] at h
    exact congrArg Except.error (Option.some.inj h)
  | some result =>
    rw [hrun] at h
    cases result with
    | error message => exact congrArg Except.error (Option.some.inj h)
    | ok report => cases h

/-- Where some estimate fails, the sequential loop stops at the first that does. -/
lemma foldlM_addEstimate_error {tasks : List (Task χ)} {task : Task χ} {error : Error}
    (hmem : task ∈ tasks) (h : e.failure task = some error) (gasReport : ρ) :
    ∃ task' ∈ tasks, ∃ error', e.failure task' = some error' ∧
      tasks.foldlM (addEstimate e) gasReport = .error error' := by
  induction tasks generalizing gasReport with
  | nil => cases hmem
  | cons first tasks ih =>
    rw [List.foldlM_cons]
    cases hfirst : addEstimate e gasReport first with
    | error error' =>
      exact ⟨first, List.mem_cons_self, error', failure_of_addEstimate hfirst, rfl⟩
    | ok gasReport' =>
      rcases List.mem_cons.mp hmem with rfl | hmem
      · -- the failing task itself adds nothing
        rw [addEstimate_of_failure h] at hfirst
        cases hfirst
      · obtain ⟨task', hmem', hrest⟩ := ih hmem gasReport'
        exact ⟨task', List.mem_cons_of_mem first hmem', hrest⟩

/-- For reports whose order of addition does not matter, every interleaving returns what the
sequential program does, except that where some estimates fail both return the error of one, maybe
of different ones. -/
theorem main_eq_sequentialMain (hadd : ∀ a b c, e.add (e.add a b) c = e.add (e.add a c) b)
    (h : Reachable e guest expected s) {result : Except Error (List String)}
    (hphase : s.phase = .returned result) :
    result = sequentialMain σ e guest expected ∨
      ∃ task ∈ σ.tasks guest.chunks, ∃ task' ∈ σ.tasks guest.chunks, ∃ error error',
        e.failure task = some error ∧ e.failure task' = some error' ∧
          result = .error error ∧ sequentialMain σ e guest expected = .error error' := by
  have : RightCommutative e.add := ⟨hadd⟩
  -- the sequential program comes to the failing task, or fails before
  have hfails (hguest : guest.error = none) {task : Task χ} (hmem : task ∈ σ.tasks guest.chunks)
      {error : Error} (hfailure : e.failure task = some error) (hresult : result = .error error) :
      ∃ task ∈ σ.tasks guest.chunks, ∃ task' ∈ σ.tasks guest.chunks, ∃ error error',
        e.failure task = some error ∧ e.failure task' = some error' ∧
          result = .error error ∧ sequentialMain σ e guest expected = .error error' := by
    obtain ⟨task', hmem', error', hfailure', hfold⟩ :=
      foldlM_addEstimate_error hmem hfailure e.default
    refine ⟨task, hmem, task', hmem', error, error', hfailure, hfailure', hresult, ?_⟩
    unfold sequentialMain
    rw [hguest, hfold]
    rfl
  cases verdict_of_returned h hphase with
  | guestFailed error herror =>
    unfold sequentialMain
    rw [herror]
    exact .inl rfl
  | panicked hguest task hmem hpanic =>
    refine .inr (hfails hguest hmem ?_ rfl)
    unfold Estimator.failure Estimator.run
    rw [hpanic]
    rfl
  | chunkFailed hguest task hmem error hfail =>
    refine .inr (hfails hguest hmem ?_ rfl)
    unfold Estimator.failure Estimator.run
    rw [hfail]
    rfl
  | estimated hguest reports order hreports horder =>
    unfold sequentialMain
    rw [hguest, foldlM_addEstimate_ok hreports, horder.foldl_eq e.default]
    exact .inl rfl

/-- Both chunks are counted, whatever worker estimates them first. -/
theorem main_eq_sequentialMain_twoChunks :
    ∃ s : State (.new .fast 8 (some 4) .all) ℕ ℕ, Reachable countedGas twoChunks [] s ∧
      s.phase = .returned (.ok ["SP1 cycles: 9", "SP1 PGU: 12", "gas trace chunks: 2",
        "estimated gas trace chunks: 2", "gas trace threshold: 1", "gas estimator workers: 3",
        "public values: ", "guest exit code: 0"]) := by
  obtain ⟨s, result, hs, hphase⟩ := exists_returned (.refl : Reachable countedGas twoChunks [] _)
  have hmain := main_eq_sequentialMain (fun a b c => Nat.add_right_comm a b c) hs hphase
  have hlines : sequentialMain (.new .fast 8 (some 4) .all) countedGas twoChunks [] = .ok [
      "SP1 cycles: 9", "SP1 PGU: 12", "gas trace chunks: 2", "estimated gas trace chunks: 2",
      "gas trace threshold: 1", "gas estimator workers: 3", "public values: ",
      "guest exit code: 0"] := rfl
  rcases hmain with rfl | ⟨_, -, _, -, error, error', -, -, -, herror⟩
  · exact ⟨s, hs, hphase.trans (congrArg _ hlines)⟩
  · rw [hlines] at herror
    cases herror

end

end RandomXSp1.Executor
