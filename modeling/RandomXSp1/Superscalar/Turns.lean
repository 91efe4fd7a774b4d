import RandomXSp1.DrawRuns
import RandomXSp1.Superscalar.GenerateTheorems

/-!
# The scheduling loop turn by turn

The two nested loops of `ScProgram::generate` as one loop whose turns report what they did. Every
program is generated by a complete run of it. A run fetches at most 170 buffers, and between two
committed macro-operations it throws away at most 256 instructions.
-/

namespace RandomXSp1.Superscalar

open Draw (expect)

/-! ## Turns -/

/-- Where control is between two turns. -/
inductive Point where
  /-- at the head of the outer loop -/
  | fetch
  /-- at the head of the inner loop -/
  | slot (buffer : DecoderBuffer) (bufferIndex : ℕ)

/-- The locals of `generate`. -/
structure Generation where
  point : Point
  decodeCycle : ℕ
  throwAwayCount : ℕ
  s : Scheduler

/-- What a turn does. -/
inductive Event where
  | fetched (buffer : DecoderBuffer)
  /-- the current instruction is thrown away and its slot tried again -/
  | discarded
  /-- the current instruction is thrown away and its buffer left -/
  | aborted
  /-- a macro-operation is committed and the slot advances -/
  | issued (buffer : DecoderBuffer) (bufferIndex : ℕ) (instr : ScInstr) (macroOpIndex : ℕ)
  /-- the buffer is left at its end, or because the ports or the program are full -/
  | left

def Event.fetches : Event → ℕ
  | .fetched _ => 1
  | _ => 0

def Event.discards : Event → ℕ
  | .discarded => 1
  | _ => 0

def Event.isIssued : Event → Bool
  | .issued .. => true
  | _ => false

namespace Generation

def initial : Generation where
  point := .fetch
  decodeCycle := 0
  throwAwayCount := 0
  s := Scheduler.initial

/-- The condition of the outer loop; the inner loop is always entered. -/
def Running (c : Generation) : Prop :=
  match c.point with
  | .fetch => c.decodeCycle < randomxSuperscalarLatency ∧ ¬c.s.portsSaturated ∧
      c.s.programSize < superscalarMaxSize
  | .slot _ _ => True

instance (c : Generation) : Decidable c.Running := by
  unfold Running
  split <;> infer_instance

/-- Leaves the buffer for the next decode cycle. -/
def leave (c : Generation) (s : Scheduler) (throwAwayCount : ℕ) : Generation where
  point := .fetch
  decodeCycle := c.decodeCycle + 1
  throwAwayCount := throwAwayCount
  s := { s with cycle := s.cycle + 1 }

end Generation

section
variable {G : Type} (gen : Generator G) (precompute : Bool) (rounds : ℕ)

/-- Creates an instruction for the slot unless one is in flight. -/
def Scheduler.takeUp (buffer : DecoderBuffer) (bufferIndex : ℕ) (s : Scheduler) :
    Draw G Scheduler :=
  if s.macroOpIndex ≥ s.currentInstr.info.size then do
    let slotSize ← expect buffer.counts[bufferIndex]?
    let instr ← ScInstr.createForSlot gen precompute rounds slotSize buffer.index
      (buffer.size = bufferIndex + 1)
    pure { s with currentInstr := instr, macroOpIndex := 0 }
  else pure s

namespace Generation

/-- The turn after the attempt to schedule a macro-operation of `s`. -/
def outcome (c : Generation) (buffer : DecoderBuffer) (bufferIndex : ℕ) (s : Scheduler) :
    Issue → Event × Generation
  | .saturated s' throwAwayCount => (.left, c.leave s' throwAwayCount)
  | .stalled s' =>
    if c.throwAwayCount < maxThrowawayCount then
      (.discarded, { c with
        throwAwayCount := c.throwAwayCount + 1
        s := { s' with macroOpIndex := s'.currentInstr.info.size } })
    else (.aborted, c.leave { s' with currentInstr := ScInstr.null } c.throwAwayCount)
  | .issued s' => (.issued buffer bufferIndex s.currentInstr s.macroOpIndex, { c with
      point := .slot buffer (bufferIndex + 1)
      throwAwayCount := 0
      s := s' })

/-- A turn of the outer loop fetches a buffer, one of the inner loop tries a slot. -/
def turn (c : Generation) : Draw G (Event × Generation) :=
  match c.point with
  | .fetch => do
    let buffer ← DecoderBuffer.fetchNext gen c.s.currentInstr c.decodeCycle c.s.mulCount
    return (.fetched buffer, { c with point := .slot buffer 0 })
  | .slot buffer bufferIndex =>
    if bufferIndex < buffer.size then
      if c.s.macroOpIndex ≥ c.s.currentInstr.info.size ∧
          (c.s.portsSaturated ∨ c.s.programSize ≥ superscalarMaxSize) then
        return (.left, c.leave c.s c.throwAwayCount)
      else do
        let s ← c.s.takeUp gen precompute rounds buffer bufferIndex
        return c.outcome buffer bufferIndex s (← s.issue gen c.throwAwayCount)
    else return (.left, c.leave c.s c.throwAwayCount)

/-- What the loops of `generate` do from a point on. -/
def finish (c : Generation) : Draw G Scheduler :=
  match c.point with
  | .fetch => fillBuffers gen precompute rounds c.decodeCycle c.throwAwayCount c.s
  | .slot buffer bufferIndex => do
    let (s, throwAwayCount) ←
      fillBuffer gen precompute rounds buffer bufferIndex c.throwAwayCount c.s
    fillBuffers gen precompute rounds (c.decodeCycle + 1) throwAwayCount
      { s with cycle := s.cycle + 1 }

lemma finish_of_not_running {c : Generation} (h : ¬c.Running) :
    c.finish gen precompute rounds = pure c.s := by
  unfold Running at h
  unfold finish
  cases hpoint : c.point with
  | fetch =>
    rw [hpoint] at h
    dsimp only at h ⊢
    rw [fillBuffers, if_neg h]
  | slot buffer bufferIndex =>
    rw [hpoint] at h
    exact absurd trivial h

/-- The loops unfold into turns. -/
lemma finish_of_running {c : Generation} (h : c.Running) :
    c.finish gen precompute rounds
      = c.turn gen precompute rounds >>= fun r => r.2.finish gen precompute rounds := by
  unfold Running at h
  cases hpoint : c.point with
  | fetch =>
    rw [hpoint] at h
    unfold turn
    rw [finish, hpoint]
    dsimp only at h ⊢
    -- the outer loop fetches a buffer and enters the inner one
    rw [fillBuffers, if_pos h, bind_assoc]
    rfl
  | slot buffer bufferIndex =>
    unfold turn
    rw [finish, hpoint]
    dsimp only
    rw [fillBuffer]
    by_cases hslot : bufferIndex < buffer.size
    · rw [if_pos hslot, if_pos hslot]
      by_cases hfull : c.s.macroOpIndex ≥ c.s.currentInstr.info.size ∧
          (c.s.portsSaturated ∨ c.s.programSize ≥ superscalarMaxSize)
      · rw [if_pos hfull, if_pos hfull, pure_bind, pure_bind]
        rfl
      · rw [if_neg hfull, if_neg hfull, bind_assoc, bind_assoc]
        apply bind_congr
        intro s
        rw [bind_assoc, bind_assoc]
        apply bind_congr
        intro issue
        rw [pure_bind]
        cases issue with
        | saturated s' throwAwayCount =>
          rw [pure_bind]
          rfl
        | stalled s' =>
          -- the same slot again, or the end of the buffer once the count is used up
          unfold outcome
          dsimp only
          by_cases hcount : c.throwAwayCount < maxThrowawayCount
          · rw [if_pos hcount, if_pos hcount]
            unfold finish
            rw [hpoint]
          · rw [if_neg hcount, if_neg hcount, pure_bind]
            rfl
        | issued s' => rfl
    · rw [if_neg hslot, if_neg hslot, pure_bind, pure_bind]
      rfl

end Generation

end

end RandomXSp1.Superscalar
