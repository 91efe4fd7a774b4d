import RandomXSp1.Superscalar.Turns

/-!
# The scheduling loop ends, and its macro-operations fit

What one turn of the scheduling loop does to three counters and to the instruction under way,
and from it what a run does. A buffer is fetched at most 170 times. Between two commits at most
256 instructions are thrown away, whatever the registers allow. Every macro-operation that is
committed fits its slot, also where its instruction began in the buffer before.
-/

namespace RandomXSp1.Superscalar
open Draw (expect)

/-! ## Buffers and slots -/

/-- The buffers that `fetch_next` returns. -/
def decoderBuffers : List DecoderBuffer :=
  [buffer484, buffer7333, buffer3733, buffer493, buffer4444, buffer3310]

/-- A slot of ten bytes is the last one. -/
lemma decoderBuffers_spec : ∀ buffer ∈ decoderBuffers, buffer.size ≤ 4 ∧
    (∀ size ∈ buffer.counts, size ∈ slotSizes) ∧
    ∀ i < 4, buffer.counts[i]? = some 10 → buffer.size = i + 1 := by
  decide

/-- The instructions that `create_for_slot` chooses from. -/
def slotInfos (slotSize : ℕ) (isLast : Bool) : List ScInstrInfo :=
  match slotSize with
  | 3 => if isLast then slot3L else [isubR, ixorR]
  | 4 => imulR :: slot4
  | 7 => slot7
  | 8 => slot8
  | 9 => slot9
  | 10 => [slot10]
  | _ => []

/-- The first macro-operation fits the slot; it fills it, but for seven bytes in a slot of eight
or nine. -/
def FitsFirst (slotSize : ℕ) (mop : ScMacroOp) : Prop :=
  mop.size ≤ slotSize ∧
    (slotSize = 3 ∨ slotSize = 4 ∨ slotSize = 7 ∨ slotSize = 10 → mop.size = slotSize) ∧
    (slotSize = 8 ∨ slotSize = 9 → mop.size = 7)

instance (slotSize : ℕ) (mop : ScMacroOp) : Decidable (FitsFirst slotSize mop) := by
  unfold FitsFirst
  infer_instance

/-- Only a high multiply, in a last slot, and a reciprocal have more than one macro-operation. -/
lemma slotInfos_spec : ∀ slotSize ∈ slotSizes, ∀ isLast, ∀ info ∈ slotInfos slotSize isLast,
    (∀ mop, info.macroOp 0 = some mop → FitsFirst slotSize mop) ∧
    (1 < info.size → ((info = imulhR ∨ info = ismulhR) ∧ isLast = true) ∨
      (info = imulRcp ∧ slotSize = 10)) := by
  decide

section
variable {G : Type} (gen : Generator G) (precompute : Bool) (rounds : ℕ)

lemma create_ensures (info : ScInstrInfo) :
    Ensures (ScInstr.create gen precompute rounds info) fun instr => instr.info = info := by
  unfold ScInstr.create
  split
  case h_15 | h_16 => exact Ensures.throw
  case h_14 =>
    refine Ensures.bind Ensures.trivial fun imm32 _ => ?_
    exact Ensures.bind Ensures.trivial fun _ _ => Ensures.pure rfl
  all_goals
    first
    | exact Ensures.pure rfl
    | exact Ensures.bind Ensures.trivial fun _ _ => Ensures.pure rfl

lemma createForSlot_ensures (slotSize fetchType : ℕ) (isLast : Bool) :
    Ensures (ScInstr.createForSlot gen precompute rounds slotSize fetchType isLast)
      fun instr => instr.info ∈ slotInfos slotSize isLast := by
  have hcreate {info : ScInstrInfo} {choices : List ScInstrInfo} (hinfo : info ∈ choices) :
      Ensures (ScInstr.create gen precompute rounds info) fun instr => instr.info ∈ choices := by
    refine (create_ensures gen precompute rounds info).mono fun instr heq => ?_
    rw [heq]
    exact hinfo
  have hdraw (slots choices : List ScInstrInfo) (mask : U8)
      (hslots : ∀ byte : U8, ∀ info, slots[(byte &&& mask).toNat]? = some info → info ∈ choices) :
      Ensures (do
        let byte ← gen.getByte
        let info ← expect slots[(byte &&& mask).toNat]?
        ScInstr.create gen precompute rounds info) fun instr => instr.info ∈ choices := by
    refine Ensures.bind Ensures.trivial fun byte _ => ?_
    refine Ensures.bind (Ensures.expect (hslots byte)) fun info hinfo => ?_
    exact hcreate hinfo
  have hmem (slots : List ScInstrInfo) (mask byte : U8) (info : ScInstrInfo)
      (h : slots[(byte &&& mask).toNat]? = some info) : info ∈ slots := List.mem_of_getElem? h
  unfold ScInstr.createForSlot
  dsimp only
  split
  · cases isLast with
    | true => exact hdraw slot3L _ 3 (hmem slot3L 3)
    | false =>
      -- the mask of one bit keeps the high multiplies out
      apply hdraw slot3L [isubR, ixorR] 1
      intro byte info hinfo
      have hle : (byte &&& 1).toNat ≤ 1 := by
        rw [BitVec.toNat_and]
        exact Nat.and_le_right
      have htake : (slot3L.take 2)[(byte &&& 1).toNat]? = some info := by
        rw [List.getElem?_take_of_lt (by omega)]
        exact hinfo
      exact List.mem_of_getElem? htake
  · apply Ensures.ite
    · intro _
      exact hcreate List.mem_cons_self
    · intro _
      exact hdraw slot4 _ 1 fun byte info h => List.mem_cons_of_mem _ (hmem slot4 1 byte info h)
  · exact hdraw slot7 _ 1 (hmem slot7 1)
  · exact hdraw slot8 _ 1 (hmem slot8 1)
  · exact hdraw slot9 _ 1 (hmem slot9 1)
  · exact hcreate (List.mem_singleton_self slot10)
  · exact Ensures.throw

lemma fetchNext_ensures (instr : ScInstr) (decodeCycle mulCount : ℕ) :
    Ensures (DecoderBuffer.fetchNext gen instr decodeCycle mulCount) fun buffer =>
      buffer ∈ decoderBuffers ∧
      (instr.info.op = .imulhR ∨ instr.info.op = .ismulhR → buffer = buffer3310) ∧
      (instr.info.op = .imulRcp → buffer.counts[0]? = some 4) := by
  unfold DecoderBuffer.fetchNext
  apply Ensures.ite
  · intro hhigh
    refine Ensures.pure ⟨by decide, fun _ => rfl, fun hop => ?_⟩
    rw [hop] at hhigh
    cases hhigh with
    | inl h => cases h
    | inr h => cases h
  intro hhigh
  apply Ensures.ite
  · intro _
    exact Ensures.pure ⟨by decide, fun h => absurd h hhigh, fun _ => rfl⟩
  intro _
  apply Ensures.ite
  · intro _
    refine Ensures.bind Ensures.trivial fun byte _ => ?_
    apply Ensures.pure
    refine ⟨?_, fun h => absurd h hhigh, fun _ => ?_⟩
    · split <;> decide
    · split <;> rfl
  intro hrcp
  refine Ensures.bind Ensures.trivial fun ix _ => ?_
  apply Ensures.expect
  intro buffer hbuffer
  have hsub : ∀ buffer ∈ decodeBuffers, buffer ∈ decoderBuffers := by decide
  exact ⟨hsub buffer (List.mem_of_getElem? hbuffer), fun h => absurd h hhigh,
    fun h => absurd h hrcp⟩

/-- What the attempt to schedule leaves of the current instruction, by the way it ends. -/
def Issue.Follows (s : Scheduler) (throwAwayCount : ℕ) : Issue → Prop
  | .stalled _ => True
  | .saturated s' throwAwayCount' =>
    s'.portsSaturated = true ∧ throwAwayCount' ≤ throwAwayCount
  | .issued s' => s'.currentInstr.info = s.currentInstr.info ∧
      s'.macroOpIndex = s.macroOpIndex + 1 ∧
      ∃ mop, s.currentInstr.info.macroOp s.macroOpIndex = some mop

lemma retire_ensures (s : Scheduler) (mop : ScMacroOp) (scheduleCycle : ℕ) :
    Ensures (s.retire mop scheduleCycle : Draw G Scheduler) fun s' =>
      s'.currentInstr = s.currentInstr ∧ s'.macroOpIndex = s.macroOpIndex + 1 := by
  unfold Scheduler.retire
  refine Ensures.bind Ensures.trivial fun registers _ => ?_
  apply Ensures.ite
  · intro _
    exact Ensures.pure ⟨rfl, rfl⟩
  · intro _
    exact Ensures.pure ⟨rfl, rfl⟩

/-- A selection changes the registers of an instruction only. -/
lemma lookForward_ensures {select : ℕ → Draw G (Option ScInstr)} {info : ScInstrInfo}
    (h : ∀ c, Ensures (select c) fun found => ∀ instr, found = some instr → instr.info = info)
    (remaining scheduleCycle cycle : ℕ) :
    Ensures (lookForward select remaining scheduleCycle cycle) fun found =>
      ∀ instr, found.1 = some instr → instr.info = info := by
  induction remaining generalizing scheduleCycle cycle with
  | zero =>
    apply Ensures.pure
    intro instr hinstr
    cases hinstr
  | succ remaining ih =>
    unfold lookForward
    refine Ensures.bind (h scheduleCycle) fun found hfound => ?_
    cases found with
    | none => exact ih (scheduleCycle + 1) (cycle + 1)
    | some instr => exact Ensures.pure hfound

lemma selectDestination_ensures (instr : ScInstr) (cycle : ℕ) (allowChainMul : Bool)
    (registers : RegisterInfos) :
    Ensures (instr.selectDestination gen cycle allowChainMul registers) fun found =>
      ∀ instr', found = some instr' → instr'.info = instr.info := by
  unfold ScInstr.selectDestination
  refine Ensures.bind Ensures.trivial fun choice _ => ?_
  cases choice with
  | none =>
    apply Ensures.pure
    intro instr' hinstr
    cases hinstr
  | some i =>
    apply Ensures.pure
    intro instr' h
    cases h
    rfl

lemma selectSource_ensures (instr : ScInstr) (cycle : ℕ) (registers : RegisterInfos) :
    Ensures (instr.selectSource gen cycle registers) fun found =>
      ∀ instr', found = some instr' → instr'.info = instr.info := by
  unfold ScInstr.selectSource
  dsimp only
  apply Ensures.ite
  · intro _
    apply Ensures.pure
    intro instr' h
    cases h
    rfl
  intro _
  refine Ensures.bind Ensures.trivial fun choice _ => ?_
  cases choice with
  | none =>
    apply Ensures.pure
    intro instr' hinstr
    cases hinstr
  | some i =>
    apply Ensures.pure
    intro instr' h
    cases h
    split <;> rfl

lemma issue_ensures (s : Scheduler) (throwAwayCount : ℕ) :
    Ensures (s.issue gen throwAwayCount) (Issue.Follows s throwAwayCount) := by
  unfold Scheduler.issue
  refine Ensures.bind (Ensures.expect fun mop hmop => hmop) fun mop hmop => ?_
  generalize scheduleMop false mop s.portBusy s.cycle s.depCycle = dryRun
  obtain ⟨scheduled, portBusy⟩ := dryRun
  cases scheduled with
  | none => exact Ensures.pure ⟨rfl, le_rfl⟩
  | some scheduleCycle =>
  -- the source phase
  refine Ensures.bind (P := fun found => ∀ instr, found.1 = some instr →
    instr.info = s.currentInstr.info) ?_ fun found hfound => ?_
  · apply Ensures.ite
    · intro _
      exact lookForward_ensures
        (fun c => selectSource_ensures gen s.currentInstr c s.registers) _ _ _
    · intro _
      apply Ensures.pure
      intro instr hinstr
      cases hinstr
      rfl
  obtain ⟨choice, scheduleCycle, cycle⟩ := found
  cases choice with
  | none => exact Ensures.pure trivial
  | some instr =>
  have hinfo := hfound instr rfl
  -- the destination phase
  refine Ensures.bind (P := fun found => ∀ instr', found.1 = some instr' →
    instr'.info = s.currentInstr.info) ?_ fun found hfound => ?_
  · apply Ensures.ite
    · intro _
      refine lookForward_ensures (fun c => ?_) _ _ _
      refine (selectDestination_ensures gen instr c _ s.registers).mono fun found h instr' h' => ?_
      exact (h instr' h').trans hinfo
    · intro _
      apply Ensures.pure
      intro instr' hinstr'
      cases hinstr'
      exact hinfo
  obtain ⟨choice, scheduleCycle, cycle⟩ := found
  cases choice with
  | none => exact Ensures.pure trivial
  | some instr' =>
  have hinfo' := hfound instr' rfl
  simp only
  generalize scheduleMop true mop portBusy scheduleCycle scheduleCycle = commit
  obtain ⟨committed, portBusy'⟩ := commit
  cases committed with
  | none => exact Ensures.pure ⟨rfl, Nat.zero_le _⟩
  | some start =>
    refine Ensures.bind (retire_ensures _ mop start) fun s' hs' => ?_
    apply Ensures.pure
    refine ⟨?_, hs'.2, mop, hmop⟩
    rw [hs'.1]
    exact hinfo'

end

/-! ## Slots and macro-operations -/

/-- The current instruction has no macro-operation left. -/
def Scheduler.Spent (s : Scheduler) : Prop := s.currentInstr.info.size ≤ s.macroOpIndex

def ScInstrInfo.IsHigh (info : ScInstrInfo) : Prop := info = imulhR ∨ info = ismulhR

/-- The next macro-operation of an instruction that is under way goes into its slot: into the
first or second slot of a buffer for high multiplies, or into a first slot of four bytes. -/
def Lands (buffer : DecoderBuffer) (bufferIndex : ℕ) (info : ScInstrInfo) (m : ℕ) : Prop :=
  (info.IsHigh ∧ buffer = buffer3310 ∧ m = bufferIndex + 1 ∧ bufferIndex < 2) ∨
    (info = imulRcp ∧ m = 1 ∧ bufferIndex = 0 ∧ buffer.counts[0]? = some 4)

/-- An instruction that is under way at the end of a buffer issued its first macro-operation. -/
def Straddles (info : ScInstrInfo) (m : ℕ) : Prop := m = 1 ∧ (info.IsHigh ∨ info = imulRcp)

/-- The slot and the macro-operation that a turn of the inner loop schedules. -/
def SlotReady (buffer : DecoderBuffer) (bufferIndex : ℕ) (s : Scheduler) : Prop :=
  ∃ slotSize ∈ slotSizes, buffer.counts[bufferIndex]? = some slotSize ∧
    ((s.macroOpIndex = 0 ∧
        s.currentInstr.info ∈ slotInfos slotSize (buffer.size = bufferIndex + 1)) ∨
      Lands buffer bufferIndex s.currentInstr.info s.macroOpIndex)

/-- A first macro-operation fits its slot. A later one lands in a slot of its size: those of the
high multiplies in the two slots that open a buffer of 3, 3 and 10 bytes, that of the reciprocal
multiply in a first slot of four bytes. -/
def Event.Fits : Event → Prop
  | .issued buffer bufferIndex instr m =>
    ∃ slotSize mop, buffer.counts[bufferIndex]? = some slotSize ∧
      instr.info.macroOp m = some mop ∧
      (m = 0 → FitsFirst slotSize mop) ∧
      (m ≠ 0 → mop.size = slotSize ∧
        (((instr.info.op = .imulhR ∨ instr.info.op = .ismulhR) ∧ buffer = buffer3310 ∧
            bufferIndex + 1 = m ∧ slotSize = 3) ∨
          (instr.info.op = .imulRcp ∧ m = 1 ∧ bufferIndex = 0 ∧ slotSize = 4)))
  | _ => True

namespace Generation

/-- The counters are in range, and an instruction that is under way goes on where it fits. -/
structure Lawful (c : Generation) : Prop where
  count : c.throwAwayCount ≤ maxThrowawayCount
  point : match c.point with
    | .fetch => c.s.portsSaturated = true ∨ c.s.Spent ∨
        Straddles c.s.currentInstr.info c.s.macroOpIndex
    | .slot buffer bufferIndex => c.decodeCycle < randomxSuperscalarLatency ∧
        buffer ∈ decoderBuffers ∧
        (c.s.Spent ∨ Lands buffer bufferIndex c.s.currentInstr.info c.s.macroOpIndex ∨
          (bufferIndex = buffer.size ∧ Straddles c.s.currentInstr.info c.s.macroOpIndex))

/-- How often a buffer can still be fetched. -/
def fetchesLeft (c : Generation) : ℕ :=
  match c.point with
  | .fetch => randomxSuperscalarLatency - c.decodeCycle
  | .slot _ _ => randomxSuperscalarLatency - 1 - c.decodeCycle

/-- How often an instruction can be thrown away before the next commit. -/
def discardsLeft (c : Generation) : ℕ :=
  match c.point with
  | .fetch => if c.s.portsSaturated then 0 else maxThrowawayCount - c.throwAwayCount
  | .slot _ _ => maxThrowawayCount - c.throwAwayCount

/-- The turns that a buffer of four slots can take, with its fetch. -/
def turnsPerBuffer : ℕ := 5 * (maxThrowawayCount + 1) + 1

/-- The lexicographic order of decode cycle, slot and throw-away count, as a number. -/
def turnsLeft (c : Generation) : ℕ :=
  c.fetchesLeft * turnsPerBuffer + match c.point with
    | .fetch => 0
    | .slot buffer bufferIndex => (buffer.size - bufferIndex) * (maxThrowawayCount + 1)
        + (maxThrowawayCount - c.throwAwayCount) + 1

/-- What a turn does to the counters. -/
structure Turned (c : Generation) (r : Event × Generation) : Prop where
  lawful : r.2.Lawful
  fits : r.1.Fits
  fetches : r.1.fetches + r.2.fetchesLeft ≤ c.fetchesLeft
  discards : r.1.isIssued = false → r.1.discards + r.2.discardsLeft ≤ c.discardsLeft
  turns : 1 + r.2.turnsLeft ≤ c.turnsLeft

end Generation

section
variable {buffer : DecoderBuffer} {bufferIndex : ℕ} {s : Scheduler}

lemma SlotReady.fits (h : SlotReady buffer bufferIndex s) {mop : ScMacroOp}
    (hmop : s.currentInstr.info.macroOp s.macroOpIndex = some mop) :
    (Event.issued buffer bufferIndex s.currentInstr s.macroOpIndex).Fits := by
  obtain ⟨slotSize, hsize, hcount, hfirst | hlands⟩ := h
  · obtain ⟨hm, hinfo⟩ := hfirst
    refine ⟨slotSize, mop, hcount, hmop, ?_, fun hne => absurd hm hne⟩
    intro _
    rw [hm] at hmop
    exact (slotInfos_spec slotSize hsize _ _ hinfo).1 mop hmop
  · refine ⟨slotSize, mop, hcount, hmop, ?_, ?_⟩
    · intro hm
      obtain ⟨-, -, hm', -⟩ | ⟨-, hm', -⟩ := hlands <;> omega
    · intro _
      obtain ⟨hinfo, hbuffer, hm, hindex⟩ | ⟨hinfo, hm, hindex, hfour⟩ := hlands
      · -- the middle and the last macro-operation have three bytes, like the first two slots
        have hthree : slotSize = 3 := by
          rw [hbuffer] at hcount
          obtain hzero | hone : bufferIndex = 0 ∨ bufferIndex = 1 := by omega
          · rw [hzero] at hcount
            exact (Option.some.inj hcount).symm
          · rw [hone] at hcount
            exact (Option.some.inj hcount).symm
        have hsizes : ∀ info, info = imulhR ∨ info = ismulhR →
            (info.op = .imulhR ∨ info.op = .ismulhR) ∧
              ∀ mop ∈ info.macroOps, mop.size = 3 := by
          intro info hinfo
          cases hinfo with
          | inl heq => rw [heq]; decide
          | inr heq => rw [heq]; decide
        obtain ⟨hop, hmops⟩ := hsizes _ hinfo
        refine ⟨?_, Or.inl ⟨hop, hbuffer, hm.symm, hthree⟩⟩
        rw [hthree]
        exact hmops mop (List.mem_of_getElem? hmop)
      · have hslot : slotSize = 4 := by
          rw [hindex, hfour] at hcount
          exact (Option.some.inj hcount).symm
        rw [hinfo, hm] at hmop
        have hsize : mop.size = 4 := by
          cases hmop
          rfl
        refine ⟨hsize.trans hslot.symm, Or.inr ⟨?_, hm, hindex, hslot⟩⟩
        rw [hinfo]
        rfl

/-- After a commit the instruction is spent or goes on in the next slot. -/
lemma SlotReady.next (hbuffer : buffer ∈ decoderBuffers) (h : SlotReady buffer bufferIndex s)
    {s' : Scheduler} (hinfo : s'.currentInstr.info = s.currentInstr.info)
    (hm : s'.macroOpIndex = s.macroOpIndex + 1) :
    s'.Spent ∨ Lands buffer (bufferIndex + 1) s'.currentInstr.info s'.macroOpIndex ∨
      (bufferIndex + 1 = buffer.size ∧ Straddles s'.currentInstr.info s'.macroOpIndex) := by
  unfold Scheduler.Spent
  rw [hinfo, hm]
  obtain ⟨slotSize, hsize, hcount, hfirst | hlands⟩ := h
  · obtain ⟨hm, hfirst⟩ := hfirst
    rw [hm]
    by_cases hone : s.currentInstr.info.size ≤ 1
    · exact Or.inl hone
    · have hbound : bufferIndex < buffer.size := (List.getElem?_eq_some_iff.mp hcount).1
      obtain ⟨hle, -, hten⟩ := decoderBuffers_spec buffer hbuffer
      have hmore := (slotInfos_spec slotSize hsize _ _ hfirst).2 (by omega)
      right
      right
      obtain ⟨hhigh, hlast⟩ | ⟨hrcp, hslot⟩ := hmore
      · have hlast : buffer.size = bufferIndex + 1 := of_decide_eq_true hlast
        exact ⟨hlast.symm, rfl, Or.inl hhigh⟩
      · rw [hslot] at hcount
        exact ⟨(hten bufferIndex (by omega) hcount).symm, rfl, Or.inr hrcp⟩
  · obtain ⟨hinfo, hbuffer, hm, hindex⟩ | ⟨hinfo, hm, -, -⟩ := hlands
    · have hthree : s.currentInstr.info.size = 3 := by
        cases hinfo with
        | inl heq => rw [heq]; rfl
        | inr heq => rw [heq]; rfl
      obtain hzero | hone : bufferIndex = 0 ∨ bufferIndex = 1 := by omega
      · exact Or.inr (Or.inl (Or.inl ⟨hinfo, hbuffer, by omega, by omega⟩))
      · left
        omega
    · left
      rw [hinfo, hm]
      exact le_refl 2

end

section
variable {G : Type} (gen : Generator G) (precompute : Bool) (rounds : ℕ)

lemma takeUp_ensures {buffer : DecoderBuffer} (hbuffer : buffer ∈ decoderBuffers)
    {bufferIndex : ℕ} (hslot : bufferIndex < buffer.size) {s : Scheduler}
    (h : s.Spent ∨ Lands buffer bufferIndex s.currentInstr.info s.macroOpIndex) :
    Ensures (s.takeUp gen precompute rounds buffer bufferIndex) (SlotReady buffer bufferIndex) := by
  have hlegal : ∀ slotSize, buffer.counts[bufferIndex]? = some slotSize → slotSize ∈ slotSizes :=
    fun slotSize hcount =>
      (decoderBuffers_spec buffer hbuffer).2.1 slotSize (List.mem_of_getElem? hcount)
  unfold Scheduler.takeUp
  apply Ensures.ite
  · intro _
    refine Ensures.bind (Ensures.expect fun slotSize hcount => hcount) fun slotSize hcount => ?_
    refine Ensures.bind (createForSlot_ensures gen precompute rounds _ _ _) fun instr hinfo => ?_
    exact Ensures.pure ⟨slotSize, hlegal slotSize hcount, hcount, Or.inl ⟨rfl, hinfo⟩⟩
  · intro hgoing
    have hcount : buffer.counts[bufferIndex]? = some (buffer.counts.get ⟨bufferIndex, hslot⟩) :=
      List.getElem?_eq_getElem hslot
    exact Ensures.pure ⟨_, hlegal _ hcount, hcount, Or.inr (h.resolve_left hgoing)⟩

namespace Generation

section
variable {c : Generation} {buffer : DecoderBuffer} {bufferIndex : ℕ}
  (hpoint : c.point = .slot buffer bufferIndex)
include hpoint

lemma fetchesLeft_of_slot : c.fetchesLeft = randomxSuperscalarLatency - 1 - c.decodeCycle := by
  unfold fetchesLeft
  rw [hpoint]

lemma discardsLeft_of_slot : c.discardsLeft = maxThrowawayCount - c.throwAwayCount := by
  unfold discardsLeft
  rw [hpoint]

lemma turnsLeft_of_slot :
    c.turnsLeft = c.fetchesLeft * turnsPerBuffer + ((buffer.size - bufferIndex) *
      (maxThrowawayCount + 1) + (maxThrowawayCount - c.throwAwayCount) + 1) := by
  unfold turnsLeft
  rw [hpoint]

/-- Leaving a buffer spends a turn, and no fetch. -/
lemma turned_leave {e : Event} {s : Scheduler} {throwAwayCount : ℕ}
    (hcount : throwAwayCount ≤ maxThrowawayCount) (hfits : e.Fits) (hfetches : e.fetches = 0)
    (hdiscards : e.discards = 0)
    (hs : s.portsSaturated = true ∨ (s.Spent ∨ Straddles s.currentInstr.info s.macroOpIndex) ∧
      throwAwayCount = c.throwAwayCount) :
    c.Turned (e, c.leave s throwAwayCount) where
  lawful := ⟨hcount, hs.imp_right And.left⟩
  fits := hfits
  fetches := by
    rw [fetchesLeft_of_slot hpoint, hfetches]
    unfold leave fetchesLeft
    dsimp only
    omega
  discards := by
    intro _
    rw [discardsLeft_of_slot hpoint, hdiscards]
    unfold leave discardsLeft
    dsimp only
    split
    · omega
    · rename_i hports
      rw [(hs.resolve_left hports).2]
      omega
  turns := by
    have hleave : (c.leave s throwAwayCount).turnsLeft = c.fetchesLeft * turnsPerBuffer := by
      rw [fetchesLeft_of_slot hpoint]
      unfold leave turnsLeft fetchesLeft
      dsimp only
      rw [Nat.add_zero, Nat.sub_sub, Nat.add_comm 1]
    dsimp only
    rw [turnsLeft_of_slot hpoint, hleave]
    omega

end

lemma turn_ensures {c : Generation} (hc : c.Lawful) (hrun : c.Running) :
    Ensures (c.turn gen precompute rounds) c.Turned := by
  have hlawful := hc.point
  unfold turn
  cases hpoint : c.point with
  | fetch =>
    unfold Running at hrun
    rw [hpoint] at hrun hlawful
    dsimp only at hrun hlawful ⊢
    refine Ensures.bind (fetchNext_ensures gen _ _ _) fun buffer hbuffer => ?_
    obtain ⟨hmem, hhigh, hrcp⟩ := hbuffer
    have hsize := (decoderBuffers_spec buffer hmem).1
    apply Ensures.pure
    refine ⟨⟨hc.count, hrun.1, hmem, ?_⟩, trivial, ?_, ?_, ?_⟩
    · -- an instruction under way goes on in the first slot
      obtain hspent | hstraddles := hlawful.resolve_left hrun.2.1
      · exact Or.inl hspent
      · obtain ⟨hm, hinfo | hinfo⟩ := hstraddles
        · have hop : c.s.currentInstr.info.op = .imulhR ∨ c.s.currentInstr.info.op = .ismulhR :=
            hinfo.imp (fun h => by rw [h]; rfl) (fun h => by rw [h]; rfl)
          exact Or.inr (Or.inl (Or.inl ⟨hinfo, hhigh hop, hm, Nat.zero_lt_two⟩))
        · have hop : c.s.currentInstr.info.op = .imulRcp := by rw [hinfo]; rfl
          exact Or.inr (Or.inl (Or.inr ⟨hinfo, hm, rfl, hrcp hop⟩))
    · unfold fetchesLeft Event.fetches
      rw [hpoint]
      dsimp only
      omega
    · intro _
      unfold discardsLeft Event.discards
      rw [hpoint]
      dsimp only
      rw [if_neg hrun.2.1]
      omega
    · have hsucc : randomxSuperscalarLatency - c.decodeCycle
          = randomxSuperscalarLatency - 1 - c.decodeCycle + 1 := by omega
      have hslots : (buffer.size - 0) * (maxThrowawayCount + 1) ≤ 4 * (maxThrowawayCount + 1) :=
        Nat.mul_le_mul_right _ hsize
      unfold turnsLeft fetchesLeft
      rw [hpoint]
      dsimp only
      rw [hsucc, Nat.succ_mul]
      unfold turnsPerBuffer maxThrowawayCount at *
      omega
  | slot buffer bufferIndex =>
    obtain ⟨point, decodeCycle, throwAwayCount, s⟩ := c
    obtain rfl : point = .slot buffer bufferIndex := hpoint
    obtain ⟨hcycle, hbuffer, hgoing⟩ := hlawful
    apply Ensures.ite
    · intro hslot
      apply Ensures.ite
      · intro hfull
        exact Ensures.pure (turned_leave rfl hc.count trivial rfl rfl
          (Or.inr ⟨Or.inl hfull.1, rfl⟩))
      intro hroom
      have hlands : s.Spent ∨ Lands buffer bufferIndex s.currentInstr.info s.macroOpIndex := by
        refine hgoing.imp_right fun h => h.resolve_right fun hend => ?_
        omega
      refine Ensures.bind (takeUp_ensures gen precompute rounds hbuffer hslot hlands)
        fun s hready => ?_
      refine Ensures.bind (issue_ensures gen s throwAwayCount) fun issue hissue => ?_
      apply Ensures.pure
      unfold outcome
      cases issue with
      | saturated s' throwAwayCount' =>
        exact turned_leave rfl (hissue.2.trans hc.count) trivial rfl rfl (Or.inl hissue.1)
      | stalled s' =>
        dsimp only
        split
        · rename_i hless
          refine ⟨⟨hless, hcycle, hbuffer, Or.inl le_rfl⟩, trivial, ?_, ?_, ?_⟩
          · exact (Nat.zero_add _).le
          · intro _
            show 1 + (maxThrowawayCount - (throwAwayCount + 1)) ≤ maxThrowawayCount - throwAwayCount
            omega
          · rw [turnsLeft_of_slot rfl, turnsLeft_of_slot rfl, fetchesLeft_of_slot rfl,
              fetchesLeft_of_slot rfl]
            dsimp only
            omega
        · exact turned_leave rfl hc.count trivial rfl rfl (Or.inr ⟨Or.inl (Nat.zero_le _), rfl⟩)
      | issued s' =>
        obtain ⟨hinfo, hm, mop, hmop⟩ := hissue
        refine ⟨⟨Nat.zero_le _, hcycle, hbuffer, hready.next hbuffer hinfo hm⟩, hready.fits hmop,
          ?_, nofun, ?_⟩
        · exact (Nat.zero_add _).le
        · have hsucc : buffer.size - bufferIndex = buffer.size - (bufferIndex + 1) + 1 := by omega
          rw [turnsLeft_of_slot rfl, turnsLeft_of_slot rfl, fetchesLeft_of_slot rfl,
            fetchesLeft_of_slot rfl, hsucc, Nat.succ_mul]
          dsimp only
          omega
    · intro hend
      refine Ensures.pure (turned_leave rfl hc.count trivial rfl rfl (Or.inr ⟨?_, rfl⟩))
      refine hgoing.imp_right fun h => (h.resolve_left fun hlands => hend ?_).2
      obtain ⟨-, hbuffer, -, hindex⟩ | ⟨-, -, hindex, hfour⟩ := hlands
      · rw [hbuffer]
        exact Nat.lt_succ_of_lt hindex
      · rw [hindex]
        exact (List.getElem?_eq_some_iff.mp hfour).1

/-- A turn keeps the counters in range and uses up one of the turns that are left. -/
lemma turn_descends {c : Generation} (hc : c.Lawful) (hrun : c.Running) :
    Ensures (c.turn gen precompute rounds) fun r =>
      r.2.Lawful ∧ 1 + r.2.turnsLeft ≤ c.turnsLeft :=
  (turn_ensures gen precompute rounds hc hrun).mono fun _ hr => ⟨hr.lawful, hr.turns⟩

lemma lawful_initial : initial.Lawful where
  count := Nat.zero_le _
  point := Or.inr (Or.inl (Nat.zero_le _))

end Generation

/-! ## Runs -/

section
variable {g h : G} {trace : List Event} {c : Generation}

/-- The counters of a state of `generate` bound what happens from there on. -/
lemma Generation.Lawful.runs {c₀ : Generation} (hc : c₀.Lawful)
    (hruns : Runs Generation.Running (Generation.turn gen precompute rounds) c₀ g trace c h) :
    c.Lawful ∧ (∀ e ∈ trace, e.Fits) ∧
      (trace.map Event.fetches).sum ≤ c₀.fetchesLeft ∧ trace.length ≤ c₀.turnsLeft := by
  have hturn (c : Generation) (hc : c.Lawful) (hrun : c.Running) :=
    Generation.turn_ensures gen precompute rounds hc hrun
  have hinv := hruns.invariant Event.Fits
    (fun c hc hrun => (hturn c hc hrun).mono fun _ hr => ⟨hr.lawful, hr.fits⟩) hc
  have hfetches := hruns.potential (fun _ => True) Event.fetches Generation.fetchesLeft
    (fun c hc hrun => (hturn c hc hrun).mono fun _ hr => ⟨hr.lawful, fun _ => hr.fetches⟩) hc
    fun _ _ => trivial
  have hturns := hruns.potential (fun _ => True) (fun _ => 1) Generation.turnsLeft
    (fun c hc hrun => (hturn c hc hrun).mono fun _ hr => ⟨hr.lawful, fun _ => hr.turns⟩) hc
    fun _ _ => trivial
  rw [List.map_const', List.sum_replicate, smul_eq_mul, mul_one] at hturns
  exact ⟨hinv.1, hinv.2, by omega, by omega⟩

/-- Between two commits the throw-away count pays for the discards. -/
lemma discards_le {segment : List Event}
    (hruns : Runs Generation.Running (Generation.turn gen precompute rounds) Generation.initial g
      trace c h)
    (hsegment : segment <:+: trace) (hquiet : ∀ e ∈ segment, e.isIssued = false) :
    (segment.map Event.discards).sum ≤ maxThrowawayCount := by
  obtain ⟨before, after, rfl⟩ := hsegment
  obtain ⟨c', _, hruns, -⟩ := hruns.split
  obtain ⟨c₀, _, hbefore, hruns⟩ := hruns.split
  have hc := (Generation.lawful_initial.runs gen precompute rounds hbefore).1
  have hpaid := hruns.potential (fun e => e.isIssued = false) Event.discards
    Generation.discardsLeft (fun c hc hrun =>
      (Generation.turn_ensures gen precompute rounds hc hrun).mono fun _ hr =>
        ⟨hr.lawful, hr.discards⟩) hc hquiet
  have hleft : c₀.discardsLeft ≤ maxThrowawayCount := by
    unfold Generation.discardsLeft
    split
    · split <;> omega
    · omega
  omega

/-- What `generate` returns is what the last state of a complete run holds. -/
lemma exists_runs_of_generate {program : ScProgram}
    (hgenerate : ScProgram.generate gen precompute rounds g = .ok (program, h)) :
    ∃ trace c, Runs Generation.Running (Generation.turn gen precompute rounds)
        Generation.initial g trace c h ∧ ¬c.Running ∧ program.prog = c.s.prog := by
  unfold ScProgram.generate at hgenerate
  obtain ⟨s, g₁, hfill, hrest⟩ := Draw.exists_of_bind hgenerate
  obtain ⟨asicLatencies, g₂, hlatencies, hdecode⟩ := Draw.exists_of_bind hrest
  obtain ⟨exec, g₃, hexec, hprogram⟩ := Draw.exists_of_bind hdecode
  -- only the loop draws
  obtain rfl : g₂ = g₁ := (Draw.eq_of_expect hlatencies).2
  obtain rfl : g₃ = g₂ := (Draw.eq_of_expect hexec).2
  cases hprogram
  obtain ⟨trace, c, hruns, hdone, hs⟩ := exists_runs_of_unfold
    (Generation.finish gen precompute rounds) Generation.s Generation.turnsLeft
    (fun _ => Generation.turn_descends gen precompute rounds)
    (fun _ hrun => Generation.finish_of_running gen precompute rounds hrun)
    (fun _ hrun => Generation.finish_of_not_running gen precompute rounds hrun)
    Generation.lawful_initial hfill
  exact ⟨trace, c, hruns, hdone, congrArg Scheduler.prog hs⟩

/-- Generation comes to the end of a complete run, unless a rejection loop used up its rounds. -/
lemma generate_complete (g : G) :
    ScProgram.generate gen precompute rounds g = .error .rejecting ∨
      ∃ program h trace c, ScProgram.generate gen precompute rounds g = .ok (program, h) ∧
        Runs Generation.Running (Generation.turn gen precompute rounds)
          Generation.initial g trace c h ∧ ¬c.Running ∧ program.prog = c.s.prog := by
  by_cases hrejecting : ScProgram.generate gen precompute rounds g = .error .rejecting
  · exact Or.inl hrejecting
  · obtain ⟨program, h, hgenerate, -⟩ := (generate_yields gen precompute rounds).returns hrejecting
    obtain ⟨trace, c, hruns⟩ := exists_runs_of_generate gen precompute rounds hgenerate
    exact Or.inr ⟨program, h, trace, c, hgenerate, hruns⟩

/-- A hash whose bytes are all the same. -/
def repeated (byte : U8) (_ : Vector U8 blakeGenDataLen) : Vector U8 blakeGenDataLen :=
  Vector.replicate _ byte

/-- The first 53 turns on bytes `0xa9`: macro-operations are committed, and then an instruction is
thrown away. -/
lemma exists_runs_repeated : ∃ trace c h,
    Runs Generation.Running
      (Generation.turn (Blake2Generator.generator (repeated 0xa9)) true 1) Generation.initial
      (Blake2Generator.new [] 0) trace c h ∧
    (trace.any Event.isIssued = true ∧ (trace.drop 52).any Event.isIssued = false) ∧
      ((trace.drop 52).map Event.discards).sum = 1 := by
  have hfacts : (runTurns Generation.Running
        (Generation.turn (Blake2Generator.generator (repeated 0xa9)) true 1) 53 Generation.initial
        (Blake2Generator.new [] 0)).map (fun r =>
          (r.1.any Event.isIssued, (r.1.drop 52).any Event.isIssued,
            ((r.1.drop 52).map Event.discards).sum))
      = some (true, false, 1) := by decide +kernel
  obtain ⟨⟨trace, c, h⟩, hruns, hfacts⟩ := Option.map_eq_some_iff.mp hfacts
  obtain ⟨hissued, hlast⟩ := Prod.mk.inj hfacts
  obtain ⟨hquiet, hdiscards⟩ := Prod.mk.inj hlast
  exact ⟨trace, c, h, runs_of_runTurns hruns, ⟨hissued, hquiet⟩, hdiscards⟩

/-- The scheduling loop ends: a run fetches at most 170 buffers, throws away at most 256
instructions between two commits and takes a bounded number of turns; unless a rejection loop
used up its rounds, generation returns the program of a complete run. -/
theorem generate_terminates (g : G) :
    (∀ trace c h, Runs Generation.Running (Generation.turn gen precompute rounds)
        Generation.initial g trace c h →
      (trace.map Event.fetches).sum ≤ 170 ∧
        (∀ segment, segment <:+: trace → (∀ e ∈ segment, e.isIssued = false) →
          (segment.map Event.discards).sum ≤ 256) ∧
        trace.length ≤ 170 * Generation.turnsPerBuffer) ∧
      (ScProgram.generate gen precompute rounds g = .error .rejecting ∨
        ∃ program h trace c, ScProgram.generate gen precompute rounds g = .ok (program, h) ∧
          Runs Generation.Running (Generation.turn gen precompute rounds)
            Generation.initial g trace c h ∧ ¬c.Running ∧ program.prog = c.s.prog) := by
  refine ⟨?_, generate_complete gen precompute rounds g⟩
  intro trace c h hruns
  obtain ⟨-, -, hfetches, hturns⟩ := Generation.lawful_initial.runs gen precompute rounds hruns
  refine ⟨hfetches, ?_, hturns⟩
  intro segment hsegment hquiet
  exact discards_le gen precompute rounds hruns hsegment hquiet

/-- The last turn throws an instruction away. -/
theorem generate_terminates_repeated : ∃ trace c h,
    Runs Generation.Running
      (Generation.turn (Blake2Generator.generator (repeated 0xa9)) true 1) Generation.initial
      (Blake2Generator.new [] 0) trace c h ∧
    (trace.map Event.fetches).sum ≤ 170 ∧ 0 < ((trace.drop 52).map Event.discards).sum ∧
      ((trace.drop 52).map Event.discards).sum ≤ 256 := by
  obtain ⟨trace, c, h, hruns, ⟨-, hquiet⟩, hdiscards⟩ := exists_runs_repeated
  obtain ⟨hfetches, hsegments, -⟩ :=
    (generate_terminates (Blake2Generator.generator (repeated 0xa9)) true 1
      (Blake2Generator.new [] 0)).1 trace c h hruns
  refine ⟨trace, c, h, hruns, hfetches, hdiscards ▸ Nat.one_pos, ?_⟩
  apply hsegments _ (List.drop_suffix 52 trace).isInfix
  intro e he
  exact Bool.eq_false_of_not_eq_true (List.any_eq_false.mp hquiet e he)

/-- Every macro-operation that a run commits fits its slot, and no slot of an illegal size is
ever reached. -/
theorem generate_fits (g : G) :
    (∀ trace c h, Runs Generation.Running (Generation.turn gen precompute rounds)
        Generation.initial g trace c h →
      (∀ e ∈ trace, e.Fits) ∧
        ∀ buffer bufferIndex slotSize, c.point = .slot buffer bufferIndex →
          buffer.counts[bufferIndex]? = some slotSize → slotSize ∈ slotSizes) ∧
      (ScProgram.generate gen precompute rounds g = .error .rejecting ∨
        ∃ program h trace c, ScProgram.generate gen precompute rounds g = .ok (program, h) ∧
          Runs Generation.Running (Generation.turn gen precompute rounds)
            Generation.initial g trace c h ∧ ¬c.Running ∧ program.prog = c.s.prog) := by
  refine ⟨?_, generate_complete gen precompute rounds g⟩
  intro trace c h hruns
  obtain ⟨hlawful, hfits, -, -⟩ := Generation.lawful_initial.runs gen precompute rounds hruns
  refine ⟨hfits, ?_⟩
  intro buffer bufferIndex slotSize hpoint hcount
  have hbuffer := hlawful.point
  rw [hpoint] at hbuffer
  exact (decoderBuffers_spec buffer hbuffer.2.1).2.1 slotSize (List.mem_of_getElem? hcount)

/-- A run that commits macro-operations. -/
theorem generate_fits_repeated : ∃ trace c h,
    Runs Generation.Running
      (Generation.turn (Blake2Generator.generator (repeated 0xa9)) true 1) Generation.initial
      (Blake2Generator.new [] 0) trace c h ∧
    ∃ e ∈ trace, e.isIssued = true ∧ e.Fits := by
  obtain ⟨trace, c, h, hruns, ⟨hissued, -⟩, -⟩ := exists_runs_repeated
  obtain ⟨e, he, hcommit⟩ := List.any_eq_true.mp hissued
  obtain ⟨hfits, -⟩ :=
    (generate_fits (Blake2Generator.generator (repeated 0xa9)) true 1
      (Blake2Generator.new [] 0)).1 trace c h hruns
  exact ⟨trace, c, h, hruns, e, he, hcommit, hfits e he⟩

end

end

end RandomXSp1.Superscalar
