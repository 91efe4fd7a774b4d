import Mathlib

/-!
# Workers behind one queue

The owner of a pool puts tasks on a queue and closes it. The workers share the receiving end through
a lock: whoever holds it waits for a task, releases the lock with the task in hand and sends the
result back. `Step` is one step of one worker, so a run is an interleaving of all of them.
-/

namespace RandomXSp1

/-- Where a worker is. -/
inductive Worker (τ : Type) where
  | idle
  | receiving
  | running (task : τ)
  | stopped
  | panicked (task : τ)
deriving DecidableEq

namespace Worker

variable {τ : Type}

/-- The task that the worker took and sent no result of. -/
def tasks : Worker τ → Multiset τ
  | running task => {task}
  | panicked task => {task}
  | idle | receiving | stopped => 0

/-- How many steps the worker may take before its next task. -/
def weight : Worker τ → ℕ
  | running _ => 3
  | idle => 2
  | receiving => 1
  | stopped | panicked _ => 0

/-- The thread has ended, by a return or by a panic. -/
def hasEnded : Worker τ → Bool
  | stopped | panicked _ => true
  | idle | receiving | running _ => false

end Worker

structure WorkerPool (n : ℕ) (τ ρ : Type) where
  queue : List τ
  closed : Bool
  workers : Fin n → Worker τ
  results : List ρ

namespace WorkerPool

variable {n : ℕ} {τ ρ : Type}

def start (n : ℕ) (τ ρ : Type) : WorkerPool n τ ρ :=
  { queue := [], closed := false, workers := fun _ => .idle, results := [] }

/-- A task goes to the end of the queue. -/
def push (p : WorkerPool n τ ρ) (task : τ) : WorkerPool n τ ρ :=
  { p with queue := p.queue ++ [task] }

/-- The sender is dropped. -/
def close (p : WorkerPool n τ ρ) : WorkerPool n τ ρ := { p with closed := true }

def setWorker (p : WorkerPool n τ ρ) (i : Fin n) (w : Worker τ) : WorkerPool n τ ρ :=
  { p with workers := Function.update p.workers i w }

/-- One step of one worker, for tasks whose result is `f`, or none where running one panics. -/
inductive Step (f : τ → Option ρ) : WorkerPool n τ ρ → WorkerPool n τ ρ → Prop
  | lock {p : WorkerPool n τ ρ} (i : Fin n) (hi : p.workers i = .idle)
      (hfree : ∀ j, p.workers j ≠ .receiving) : Step f p (p.setWorker i .receiving)
  | recv {p : WorkerPool n τ ρ} (i : Fin n) (hi : p.workers i = .receiving) (task : τ)
      (rest : List τ) (hqueue : p.queue = task :: rest) :
      Step f p ({ p with queue := rest }.setWorker i (.running task))
  | stop {p : WorkerPool n τ ρ} (i : Fin n) (hi : p.workers i = .receiving) (hqueue : p.queue = [])
      (hclosed : p.closed = true) : Step f p (p.setWorker i .stopped)
  | send {p : WorkerPool n τ ρ} (i : Fin n) (task : τ) (hi : p.workers i = .running task)
      (result : ρ) (hresult : f task = some result) :
      Step f p ({ p with results := p.results ++ [result] }.setWorker i .idle)
  | panic {p : WorkerPool n τ ρ} (i : Fin n) (task : τ) (hi : p.workers i = .running task)
      (hpanic : f task = none) : Step f p (p.setWorker i (.panicked task))

/-! ## What the workers keep -/

/-- The tasks that are neither queued nor turned into a result. -/
def held (p : WorkerPool n τ ρ) : Multiset τ := ∑ i, (p.workers i).tasks

/-- The books of a pool: every task sent is queued, with a worker, or among those done, whose
results are the ones the owner has taken or will find. -/
structure Accounts (f : τ → Option ρ) (sent : Multiset τ) (taken : List ρ)
    (p : WorkerPool n τ ρ) : Prop where
  tasks : ∃ done : Multiset τ, sent = ↑p.queue + p.held + done ∧
    done.map f = Multiset.map some ↑(taken ++ p.results)
  panicked : ∀ i task, p.workers i = .panicked task → f task = none
  stopped : ∀ i, p.workers i = .stopped → p.closed = true ∧ p.queue = []
  /-- The lock is held once. -/
  exclusive : ∀ i j, p.workers i = .receiving → p.workers j = .receiving → i = j

section
variable {f : τ → Option ρ} {sent : Multiset τ} {taken : List ρ} {p p' : WorkerPool n τ ρ}

/-- What one worker contributes to a sum is exchanged. -/
lemma sum_setWorker {M : Type} [AddCommMonoid M] (g : Worker τ → M) (p : WorkerPool n τ ρ)
    (i : Fin n) (w : Worker τ) :
    ∑ j, g ((p.setWorker i w).workers j) + g (p.workers i) = ∑ j, g (p.workers j) + g w := by
  have hupdate (j : Fin n) :
      g ((p.setWorker i w).workers j) = Function.update (fun j => g (p.workers j)) i (g w) j :=
    Function.apply_update (fun _ => g) p.workers i w j
  simp only [hupdate]
  rw [Finset.sum_update_of_mem (Finset.mem_univ i), ← Finset.add_sum_erase Finset.univ
    (fun j => g (p.workers j)) (Finset.mem_univ i), Finset.sdiff_singleton_eq_erase]
  ac_rfl

lemma held_setWorker (p : WorkerPool n τ ρ) (i : Fin n) (w : Worker τ) :
    (p.setWorker i w).held + (p.workers i).tasks = p.held + w.tasks :=
  sum_setWorker Worker.tasks p i w

lemma workers_setWorker (p : WorkerPool n τ ρ) (i j : Fin n) (w : Worker τ) :
    (p.setWorker i w).workers j = if j = i then w else p.workers j :=
  Function.update_apply p.workers i w j

/-- At the start nothing was sent and nothing is held. -/
lemma Accounts.start (f : τ → Option ρ) : Accounts f 0 [] (start n τ ρ) where
  tasks := ⟨0, by simp [WorkerPool.start, held, Worker.tasks], by simp [WorkerPool.start]⟩
  panicked _ _ h := by cases h
  stopped _ h := by cases h
  exclusive _ _ h := by cases h

/-- A task that is sent is in the queue. -/
lemma Accounts.push (h : Accounts f sent taken p) (hopen : p.closed = false) (task : τ) :
    Accounts f (sent + {task}) taken (p.push task) where
  tasks := by
    obtain ⟨done, hsent, hdone⟩ := h.tasks
    refine ⟨done, ?_, hdone⟩
    rw [hsent]
    show ↑p.queue + p.held + done + {task} = ↑(p.queue ++ [task]) + p.held + done
    rw [← Multiset.coe_add, Multiset.coe_singleton]
    ac_rfl
  panicked := h.panicked
  stopped i hi := by
    have hclosed := (h.stopped i hi).1
    -- no worker has stopped while the sender is open
    rw [hopen] at hclosed
    cases hclosed
  exclusive := h.exclusive

lemma Accounts.close (h : Accounts f sent taken p) : Accounts f sent taken p.close where
  tasks := h.tasks
  panicked := h.panicked
  stopped i hi := ⟨rfl, (h.stopped i hi).2⟩
  exclusive := h.exclusive

/-- The owner takes the first result. -/
lemma Accounts.take (h : Accounts f sent taken p) {result : ρ} {rest : List ρ}
    (hresults : p.results = result :: rest) :
    Accounts f sent (taken ++ [result]) { p with results := rest } where
  tasks := by
    obtain ⟨done, hsent, hdone⟩ := h.tasks
    refine ⟨done, hsent, ?_⟩
    rw [hdone, hresults, List.append_assoc]
    rfl
  panicked := h.panicked
  stopped := h.stopped
  exclusive := h.exclusive

/-- A worker that holds no task before and after leaves the books alone. -/
lemma Accounts.setWorker (h : Accounts f sent taken p) {i : Fin n} {w : Worker τ}
    (hbefore : (p.workers i).tasks = 0) (hafter : w.tasks = 0)
    (hstopped : w = .stopped → p.closed = true ∧ p.queue = [])
    (hreceiving : w = .receiving → ∀ j, p.workers j ≠ .receiving) :
    Accounts f sent taken (p.setWorker i w) where
  tasks := by
    obtain ⟨done, hsent, hdone⟩ := h.tasks
    refine ⟨done, ?_, hdone⟩
    have hheld := held_setWorker p i w
    rw [hbefore, hafter, add_zero, add_zero] at hheld
    rw [hheld]
    exact hsent
  panicked j task hj := by
    rw [workers_setWorker] at hj
    split at hj
    · subst hj
      exact absurd hafter (Multiset.singleton_ne_zero task)
    · exact h.panicked j task hj
  stopped j hj := by
    rw [workers_setWorker] at hj
    split at hj
    · exact hstopped hj
    · exact h.stopped j hj
  exclusive j k hj hk := by
    rw [workers_setWorker] at hj hk
    split at hj <;> split at hk
    -- the new holder is the only one: before the step nobody held the lock
    · exact ‹j = i›.trans ‹k = i›.symm
    · exact absurd hk (hreceiving hj k)
    · exact absurd hj (hreceiving hk j)
    · exact h.exclusive j k hj hk

/-- A received task moves from the queue to its worker. -/
lemma Accounts.recv (h : Accounts f sent taken p) {i : Fin n} (hi : p.workers i = .receiving)
    {task : τ} {rest : List τ} (hqueue : p.queue = task :: rest) :
    Accounts f sent taken ({ p with queue := rest }.setWorker i (.running task)) where
  tasks := by
    obtain ⟨done, hsent, hdone⟩ := h.tasks
    refine ⟨done, ?_, hdone⟩
    have hheld := held_setWorker { p with queue := rest } i (.running task)
    simp only [hi, Worker.tasks, add_zero] at hheld
    rw [hheld, hsent, hqueue, ← Multiset.cons_coe, ← Multiset.singleton_add]
    show _ = ↑rest + (p.held + {task}) + done
    ac_rfl
  panicked j t hj := by
    rw [workers_setWorker] at hj
    split at hj
    · cases hj
    · exact h.panicked j t hj
  stopped j hj := by
    rw [workers_setWorker] at hj
    split at hj
    · cases hj
    · have hnil := (h.stopped j hj).2
      rw [hqueue] at hnil
      cases hnil
  exclusive j k hj hk := by
    rw [workers_setWorker] at hj hk
    split at hj <;> split at hk
    · cases hj
    · cases hj
    · cases hk
    · exact h.exclusive j k hj hk

/-- A task that is done leaves its worker, and its result is in the channel. -/
lemma Accounts.send (h : Accounts f sent taken p) {i : Fin n} {task : τ}
    (hi : p.workers i = .running task) {result : ρ} (hresult : f task = some result) :
    Accounts f sent taken
      ({ p with results := p.results ++ [result] }.setWorker i .idle) where
  tasks := by
    obtain ⟨done, hsent, hdone⟩ := h.tasks
    have hheld := held_setWorker { p with results := p.results ++ [result] } i .idle
    simp only [hi, Worker.tasks, add_zero] at hheld
    refine ⟨done + {task}, ?_, ?_⟩
    · rw [hsent]
      show ↑p.queue + p.held + done = ↑p.queue + _ + (done + {task})
      rw [show p.held = _ from hheld.symm]
      ac_rfl
    · rw [Multiset.map_add, hdone, Multiset.map_singleton, hresult]
      show _ = Multiset.map some ((taken ++ (p.results ++ [result]) : List ρ) : Multiset ρ)
      rw [← List.append_assoc, ← Multiset.coe_add (taken ++ p.results), Multiset.map_add]
      rfl
  panicked j t hj := by
    rw [workers_setWorker] at hj
    split at hj
    · cases hj
    · exact h.panicked j t hj
  stopped j hj := by
    rw [workers_setWorker] at hj
    split at hj
    · cases hj
    · exact h.stopped j hj
  exclusive j k hj hk := by
    rw [workers_setWorker] at hj hk
    split at hj <;> split at hk
    · cases hj
    · cases hj
    · cases hk
    · exact h.exclusive j k hj hk

/-- A panicked worker keeps its task. -/
lemma Accounts.panic (h : Accounts f sent taken p) {i : Fin n} {task : τ}
    (hi : p.workers i = .running task) (hpanic : f task = none) :
    Accounts f sent taken (p.setWorker i (.panicked task)) where
  tasks := by
    obtain ⟨done, hsent, hdone⟩ := h.tasks
    refine ⟨done, ?_, hdone⟩
    have hheld := held_setWorker p i (.panicked task)
    simp only [hi, Worker.tasks, add_left_inj] at hheld
    rw [hheld]
    exact hsent
  panicked j t hj := by
    rw [workers_setWorker] at hj
    split at hj
    · cases hj
      exact hpanic
    · exact h.panicked j t hj
  stopped j hj := by
    rw [workers_setWorker] at hj
    split at hj
    · cases hj
    · exact h.stopped j hj
  exclusive j k hj hk := by
    rw [workers_setWorker] at hj hk
    split at hj <;> split at hk
    · cases hj
    · cases hj
    · cases hk
    · exact h.exclusive j k hj hk

/-- No step loses a task or takes one twice. -/
theorem Accounts.step (h : Accounts f sent taken p) (hstep : Step f p p') :
    Accounts f sent taken p' := by
  cases hstep with
  | lock i hi hfree =>
    exact h.setWorker (by rw [hi]; rfl) rfl (fun hn => by cases hn) fun _ => hfree
  | recv i hi task rest hqueue => exact h.recv hi hqueue
  | stop i hi hqueue hclosed =>
    exact h.setWorker (by rw [hi]; rfl) rfl (fun _ => ⟨hclosed, hqueue⟩) fun hn => by cases hn
  | send i task hi result hresult => exact h.send hi hresult
  | panic i task hi hpanic => exact h.panic hi hpanic

lemma Step.closed_eq (hstep : Step f p p') : p'.closed = p.closed := by
  cases hstep <;> rfl

/-- A worker that stopped stays so. -/
lemma Step.stopped (hstep : Step f p p') {i : Fin n} (hi : p.workers i = .stopped) :
    p'.workers i = .stopped := by
  -- the worker that moves is another one
  have hother {j : Fin n} {w : Worker τ} (hj : p.workers j = w) (hw : w ≠ .stopped) : i ≠ j := by
    intro hij
    rw [← hj, ← hij, hi] at hw
    exact hw rfl
  cases hstep with
  | lock j hj _ => rw [workers_setWorker, if_neg (hother hj nofun), hi]
  | recv j hj _ _ _ => rw [workers_setWorker, if_neg (hother hj nofun), hi]
  | stop j hj _ _ => rw [workers_setWorker, if_neg (hother hj nofun), hi]
  | send j _ hj _ _ => rw [workers_setWorker, if_neg (hother hj nofun), hi]
  | panic j _ hj _ => rw [workers_setWorker, if_neg (hother hj nofun), hi]

/-! ## Draining the pool -/

/-- Once every worker has returned, every task sent has its result. -/
lemma Accounts.drained (h : Accounts f sent taken p) (hn : 0 < n)
    (hstopped : ∀ i, p.workers i = .stopped) :
    sent.map f = Multiset.map some ↑(taken ++ p.results) := by
  obtain ⟨done, hsent, hdone⟩ := h.tasks
  have hqueue := (h.stopped ⟨0, hn⟩ (hstopped _)).2
  have hheld : p.held = 0 := Finset.sum_eq_zero fun i _ => by rw [hstopped i]; rfl
  rw [hqueue, hheld, Multiset.coe_nil, zero_add, zero_add] at hsent
  rw [hsent, hdone]

lemma Accounts.mem_sent_of_panicked (h : Accounts f sent taken p) {i : Fin n} {task : τ}
    (hi : p.workers i = .panicked task) : task ∈ sent := by
  obtain ⟨done, hsent, -⟩ := h.tasks
  have hmem : task ∈ p.held := by
    refine Multiset.mem_sum.mpr ⟨i, Finset.mem_univ i, ?_⟩
    rw [hi]
    exact Multiset.mem_singleton_self task
  rw [hsent]
  exact Multiset.mem_add.mpr (.inl (Multiset.mem_add.mpr (.inr hmem)))

/-- Some worker can move while one of them lives, a closed queue included. -/
theorem exists_step (f : τ → Option ρ) (p : WorkerPool n τ ρ)
    (hwork : p.closed = true ∨ p.queue ≠ []) {i : Fin n} (hi : (p.workers i).hasEnded = false) :
    ∃ p', Step f p p' := by
  by_cases hrunning : ∃ j task, p.workers j = .running task
  · -- a running worker needs nobody
    obtain ⟨j, task, hj⟩ := hrunning
    cases hresult : f task with
    | none => exact ⟨_, .panic j task hj hresult⟩
    | some result => exact ⟨_, .send j task hj result hresult⟩
  · by_cases hreceiving : ∃ j, p.workers j = .receiving
    · -- the holder of the lock finds a task, or that there will be none
      obtain ⟨j, hj⟩ := hreceiving
      cases hqueue : p.queue with
      | nil => exact ⟨_, .stop j hj hqueue (hwork.resolve_right fun hn => hn hqueue)⟩
      | cons task rest => exact ⟨_, .recv j hj task rest hqueue⟩
    · -- else the lock is free, and the worker that lives is waiting for it
      push Not at hrunning hreceiving
      have hidle : p.workers i = .idle := by
        cases hw : p.workers i with
        | idle => rfl
        | receiving => exact absurd hw (hreceiving i)
        | running task => exact absurd hw (hrunning i task)
        | stopped => simp [hw, Worker.hasEnded] at hi
        | panicked task => simp [hw, Worker.hasEnded] at hi
      exact ⟨_, .lock i hidle hreceiving⟩

/-- What the workers can still do before the queue is refilled. -/
def weight (p : WorkerPool n τ ρ) : ℕ := 4 * p.queue.length + ∑ i, (p.workers i).weight

lemma weight_push (p : WorkerPool n τ ρ) (task : τ) : (p.push task).weight = p.weight + 4 := by
  simp only [weight, push, List.length_append, List.length_singleton]
  omega

lemma weight_setWorker (p : WorkerPool n τ ρ) (i : Fin n) (w : Worker τ) :
    (p.setWorker i w).weight + (p.workers i).weight = p.weight + w.weight := by
  have hsum := sum_setWorker Worker.weight p i w
  unfold weight
  show 4 * p.queue.length + _ + _ = _
  omega

/-- Each step lowers the weight, so a pool comes to rest. -/
theorem weight_step (hstep : Step f p p') : p'.weight < p.weight := by
  cases hstep with
  | lock i hi _ =>
    have hset := weight_setWorker p i .receiving
    rw [hi] at hset
    change _ + 2 = _ + 1 at hset
    omega
  | recv i hi task rest hqueue =>
    have hset := weight_setWorker { p with queue := rest } i (.running task)
    have hqueue : p.weight = ({ p with queue := rest } : WorkerPool n τ ρ).weight + 4 := by
      simp only [weight, hqueue, List.length_cons]
      omega
    rw [hi] at hset
    change _ + 1 = _ + 3 at hset
    omega
  | stop i hi _ _ =>
    have hset := weight_setWorker p i .stopped
    rw [hi] at hset
    change _ + 1 = _ + 0 at hset
    omega
  | send i task hi result _ =>
    have hset := weight_setWorker { p with results := p.results ++ [result] } i .idle
    rw [hi] at hset
    change _ + 3 = p.weight + 2 at hset
    omega
  | panic i task hi _ =>
    have hset := weight_setWorker p i (.panicked task)
    rw [hi] at hset
    change _ + 3 = _ + 0 at hset
    omega

end

end WorkerPool

end RandomXSp1
