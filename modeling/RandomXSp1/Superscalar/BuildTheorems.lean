import RandomXSp1.DrawPairs
import RandomXSp1.Superscalar.GenerateTheorems
import RandomXSp1.Superscalar.ExecuteTheorems

/-!
# Superscalar programs of the builds

Without its feature the reciprocal of a multiplier is not computed when a program is generated, but
each time the instruction is executed. Generation never reads it, so the builds draw the same and
their programs differ in this field only.
-/

namespace RandomXSp1.Superscalar

open Draw (expect rejectWhile)

/-! ## Instructions and states -/

/-- The instruction of a build that does not compute reciprocals. -/
def ScInstr.withoutReciprocal (instr : ScInstr) : ScInstr := { instr with reciprocal := 0 }

/-- The reciprocal of a multiplier is that of its immediate. -/
def ScInstr.Computed (instr : ScInstr) : Prop :=
  instr.info.op = .imulRcp →
    randomxReciprocal (instr.imm32.setWidth 64) = some instr.reciprocal

/-- An instruction of the build that computes reciprocals, and that of the other build. -/
structure ScInstr.Counterpart (instr instr' : ScInstr) : Prop where
  computed : instr.Computed
  eq : instr' = instr.withoutReciprocal

def Scheduler.withoutReciprocals (s : Scheduler) : Scheduler :=
  { s with
    prog := s.prog.map ScInstr.withoutReciprocal
    currentInstr := s.currentInstr.withoutReciprocal }

structure Scheduler.Counterpart (s s' : Scheduler) : Prop where
  prog : ∀ instr ∈ s.prog, instr.Computed
  currentInstr : s.currentInstr.Computed
  eq : s' = s.withoutReciprocals

/-- The same end of an issue, on schedulers that correspond. -/
def Issue.Counterpart : Issue → Issue → Prop
  | .stalled s, .stalled s' => s.Counterpart s'
  | .saturated s count, .saturated s' count' => s.Counterpart s' ∧ count = count'
  | .issued s, .issued s' => s.Counterpart s'
  | _, _ => False

section
variable {G : Type} (gen : Generator G)

/-! ## Creating instructions -/

/-- An instruction without a reciprocal is its own counterpart. -/
lemma ScInstr.counterpart_self {instr : ScInstr} (hop : instr.info.op ≠ .imulRcp)
    (hreciprocal : instr.reciprocal = 0) : instr.Counterpart instr := by
  refine ⟨fun h => absurd h hop, ?_⟩
  unfold withoutReciprocal
  rw [← hreciprocal]

/-- The builds draw the same, and differ in the reciprocal that they keep. -/
lemma create_alike (rounds : ℕ) (info : ScInstrInfo) :
    Alike ScInstr.Counterpart (ScInstr.create gen true rounds info)
      (ScInstr.create gen false rounds info) := by
  unfold ScInstr.create
  cases hop : info.op
  case imulRcp =>
    -- both builds reject the same values, and what they accept has a reciprocal
    have haccepted := ((yields_getU32 gen).rejectWhile rounds : Yields
      (Draw.rejectWhile isZeroOrPowerOf2 gen.getU32 rounds) _).ensures
    refine Alike.bind (R := fun imm32 imm32' => imm32 = imm32' ∧ isZeroOrPowerOf2 imm32 = false)
      (Alike.of_ensures (haccepted.mono fun _ h => ⟨rfl, h.2⟩)) ?_
    rintro imm32 _ ⟨rfl, himm32⟩
    obtain ⟨reciprocal, hreciprocal⟩ := exists_randomxReciprocal (setWidth_ne_zero himm32)
    rw [hreciprocal]
    exact Alike.pure ⟨fun _ => hreciprocal, rfl⟩
  case invalid | count => exact Alike.throw .panic
  case isubR | ixorR | imulR =>
    exact Alike.pure (ScInstr.counterpart_self (by simp [ScInstr.blank, hop]) rfl)
  all_goals
    apply Alike.bind_same
    intro draw
    exact Alike.pure (ScInstr.counterpart_self (by simp [ScInstr.blank, hop]) rfl)

/-- What is chosen for a slot corresponds. -/
lemma createForSlot_alike (rounds slotSize fetchType : ℕ) (isLast : Bool) :
    Alike ScInstr.Counterpart
      (ScInstr.createForSlot gen true rounds slotSize fetchType isLast)
      (ScInstr.createForSlot gen false rounds slotSize fetchType isLast) := by
  have hdraw (slots : List ScInstrInfo) (mask : U8) :
      Alike ScInstr.Counterpart (do
        let byte ← gen.getByte
        let info ← expect slots[(byte &&& mask).toNat]?
        ScInstr.create gen true rounds info) (do
        let byte ← gen.getByte
        let info ← expect slots[(byte &&& mask).toNat]?
        ScInstr.create gen false rounds info) := by
    apply Alike.bind_same
    intro byte
    apply Alike.bind_same
    exact fun info => create_alike gen rounds info
  unfold ScInstr.createForSlot
  dsimp only
  split
  · cases isLast
    · exact hdraw slot3L 1
    · exact hdraw slot3L 3
  · apply Alike.ite
    · exact fun _ => create_alike gen rounds imulR
    · exact fun _ => hdraw slot4 1
  · exact hdraw slot7 1
  · exact hdraw slot8 1
  · exact hdraw slot9 1
  · exact create_alike gen rounds slot10
  · exact Alike.throw .panic

/-! ## Selecting registers -/

section
variable {instr instr' : ScInstr} (h : instr.Counterpart instr')
include h

/-- The choice of registers reads no reciprocal. -/
lemma selectDestination_alike (cycle : ℕ) (allowChainMul : Bool) (registers : RegisterInfos) :
    Alike (Option.Rel ScInstr.Counterpart)
      (instr.selectDestination gen cycle allowChainMul registers)
      (instr'.selectDestination gen cycle allowChainMul registers) := by
  obtain ⟨hcomputed, rfl⟩ := h
  apply Alike.bind_same
  intro selected
  cases selected with
  | none => exact Alike.pure .none
  | some i => exact Alike.pure (.some ⟨hcomputed, rfl⟩)

lemma selectSource_alike (cycle : ℕ) (registers : RegisterInfos) :
    Alike (Option.Rel ScInstr.Counterpart) (instr.selectSource gen cycle registers)
      (instr'.selectSource gen cycle registers) := by
  obtain ⟨hcomputed, rfl⟩ := h
  apply Alike.ite
  · exact fun _ => Alike.pure (.some ⟨hcomputed, rfl⟩)
  · intro _
    apply Alike.bind_same
    intro selected
    cases selected with
    | none => exact Alike.pure .none
    | some i =>
      apply Alike.pure
      refine .some ?_
      show ScInstr.Counterpart (if instr.groupParIsSource then _ else _)
        (if instr.groupParIsSource then _ else _)
      split <;> exact ⟨hcomputed, rfl⟩

end

lemma lookForward_alike {select select' : ℕ → Draw G (Option ScInstr)}
    (h : ∀ cycle, Alike (Option.Rel ScInstr.Counterpart) (select cycle) (select' cycle))
    (remaining scheduleCycle cycle : ℕ) :
    Alike (fun result result' =>
        Option.Rel ScInstr.Counterpart result.1 result'.1 ∧ result.2 = result'.2)
      (lookForward select remaining scheduleCycle cycle)
      (lookForward select' remaining scheduleCycle cycle) := by
  induction remaining generalizing scheduleCycle cycle with
  | zero => exact Alike.pure ⟨.none, rfl⟩
  | succ remaining ih =>
    refine (h scheduleCycle).bind ?_
    intro selected selected' hselected
    cases hselected with
    | none => exact ih _ _
    | some hinstr => exact Alike.pure ⟨.some hinstr, rfl⟩

/-! ## The scheduling loop -/

/-- What is committed corresponds. -/
lemma retire_alike {s s' : Scheduler} (h : s.Counterpart s') (mop : ScMacroOp)
    (scheduleCycle : ℕ) :
    Alike Scheduler.Counterpart (s.retire mop scheduleCycle : Draw G Scheduler)
      (s'.retire mop scheduleCycle) := by
  obtain ⟨hprog, hcurrent, rfl⟩ := h
  apply Alike.bind_same
  intro registers
  apply Alike.ite
  · intro _
    apply Alike.pure
    refine ⟨?_, hcurrent, ?_⟩
    · intro instr hinstr
      rcases List.mem_append.mp hinstr with hinstr | hinstr
      · exact hprog instr hinstr
      · rw [List.mem_singleton.mp hinstr]
        exact hcurrent
    · unfold Scheduler.withoutReciprocals
      dsimp only
      rw [List.map_append]
      rfl
  · exact fun _ => Alike.pure ⟨hprog, hcurrent, rfl⟩

/-- An issue ends the same way in both builds. -/
lemma issue_alike {s s' : Scheduler} (h : s.Counterpart s') (throwAwayCount : ℕ) :
    Alike Issue.Counterpart (s.issue gen throwAwayCount) (s'.issue gen throwAwayCount) := by
  obtain ⟨hprog, hcurrent, rfl⟩ := h
  have hself : s.currentInstr.Counterpart s.currentInstr.withoutReciprocal := ⟨hcurrent, rfl⟩
  apply Alike.bind_same
  intro mop
  -- the schedule does not look at reciprocals, so both builds find the same cycle
  rcases hscheduled : scheduleMop false mop s.portBusy s.cycle s.depCycle with ⟨scheduled, portBusy⟩
  have hscheduled' : scheduleMop false mop s.withoutReciprocals.portBusy s.withoutReciprocals.cycle
      s.withoutReciprocals.depCycle = (scheduled, portBusy) := hscheduled
  rw [hscheduled']
  dsimp only
  cases scheduled with
  | none => exact Alike.pure ⟨⟨hprog, hcurrent, rfl⟩, rfl⟩
  | some scheduleCycle =>
    refine Alike.bind (R := fun result result' =>
      Option.Rel ScInstr.Counterpart result.1 result'.1 ∧ result.2 = result'.2) ?_ ?_
    · apply Alike.ite
      · exact fun _ => lookForward_alike (fun cycle => selectSource_alike gen hself cycle _) _ _ _
      · exact fun _ => Alike.pure ⟨.some hself, rfl⟩
    rintro ⟨selected, scheduleCycle, cycle⟩ ⟨selected', _⟩ ⟨hselected, rfl⟩
    cases hselected with
    | none => exact Alike.pure ⟨hprog, hcurrent, rfl⟩
    | @some instr instr' hinstr =>
      obtain ⟨hcomputed, rfl⟩ := hinstr
      refine Alike.bind (R := fun result result' =>
        Option.Rel ScInstr.Counterpart result.1 result'.1 ∧ result.2 = result'.2) ?_ ?_
      · apply Alike.ite
        · intro _
          exact lookForward_alike
            (fun cycle => selectDestination_alike gen ⟨hcomputed, rfl⟩ cycle _ _) _ _ _
        · exact fun _ => Alike.pure ⟨.some ⟨hcomputed, rfl⟩, rfl⟩
      rintro ⟨selected, scheduleCycle, cycle⟩ ⟨selected', _⟩ ⟨hselected, rfl⟩
      cases hselected with
      | none => exact Alike.pure ⟨hprog, hcomputed, rfl⟩
      | @some instr instr' hinstr =>
        obtain ⟨hcomputed, rfl⟩ := hinstr
        dsimp only
        rcases scheduleMop true mop portBusy scheduleCycle scheduleCycle with ⟨committed, portBusy⟩
        cases committed with
        | none => exact Alike.pure ⟨⟨hprog, hcomputed, rfl⟩, rfl⟩
        | some scheduleCycle =>
          have hretire := retire_alike (G := G) (s := { s with portBusy, currentInstr := instr })
            ⟨hprog, hcomputed, rfl⟩ mop scheduleCycle
          exact hretire.bind fun _ _ hs => Alike.pure hs

/-! ## The loops -/

/-- So does a buffer. -/
lemma fillBuffer_alike (rounds : ℕ) (buffer : DecoderBuffer) (bufferIndex throwAwayCount : ℕ)
    {s s' : Scheduler} (h : s.Counterpart s') :
    Alike (fun result result' => result.1.Counterpart result'.1 ∧ result.2 = result'.2)
      (fillBuffer gen true rounds buffer bufferIndex throwAwayCount s)
      (fillBuffer gen false rounds buffer bufferIndex throwAwayCount s') := by
  obtain ⟨hprog, hcurrent, rfl⟩ := h
  rw [fillBuffer, fillBuffer]
  apply Alike.ite
  · intro hslot
    apply Alike.ite
    · exact fun _ => Alike.pure ⟨⟨hprog, hcurrent, rfl⟩, rfl⟩
    intro _
    refine Alike.bind (R := Scheduler.Counterpart) ?_ ?_
    · apply Alike.ite
      · intro _
        apply Alike.bind_same
        intro slotSize
        refine (createForSlot_alike gen rounds slotSize _ _).bind ?_
        rintro instr _ ⟨hcomputed, rfl⟩
        exact Alike.pure ⟨hprog, hcomputed, rfl⟩
      · exact fun _ => Alike.pure ⟨hprog, hcurrent, rfl⟩
    intro s s' hs
    refine (issue_alike gen hs throwAwayCount).bind ?_
    intro outcome outcome' houtcome
    cases outcome <;> cases outcome'
    case saturated.saturated => exact Alike.pure houtcome
    case stalled.stalled s s' =>
      -- another try at the slot, or the end of the buffer without a current instruction
      obtain ⟨hprog, hcurrent, rfl⟩ := houtcome
      apply Alike.ite
      · intro _
        exact fillBuffer_alike rounds buffer bufferIndex (throwAwayCount + 1)
          ⟨hprog, hcurrent, rfl⟩
      · have hnull : ScInstr.null.info.op ≠ .imulRcp := by decide
        exact fun _ => Alike.pure ⟨⟨hprog, fun hop => absurd hop hnull, rfl⟩, rfl⟩
    case issued.issued => exact fillBuffer_alike rounds buffer (bufferIndex + 1) 0 houtcome
    all_goals exact houtcome.elim
  · exact fun _ => Alike.pure ⟨⟨hprog, hcurrent, rfl⟩, rfl⟩
termination_by (buffer.size - bufferIndex, maxThrowawayCount - throwAwayCount)

/-- And so do all of them. -/
lemma fillBuffers_alike (rounds decodeCycle throwAwayCount : ℕ) {s s' : Scheduler}
    (h : s.Counterpart s') :
    Alike Scheduler.Counterpart (fillBuffers gen true rounds decodeCycle throwAwayCount s)
      (fillBuffers gen false rounds decodeCycle throwAwayCount s') := by
  obtain ⟨hprog, hcurrent, rfl⟩ := h
  rw [fillBuffers, fillBuffers]
  apply Alike.ite
  · intro hgo
    apply Alike.bind_same
    intro buffer
    refine (fillBuffer_alike gen rounds buffer 0 throwAwayCount ⟨hprog, hcurrent, rfl⟩).bind ?_
    rintro ⟨s, throwAwayCount⟩ ⟨s', _⟩ ⟨⟨hprog, hcurrent, rfl⟩, rfl⟩
    exact fillBuffers_alike rounds (decodeCycle + 1) throwAwayCount ⟨hprog, hcurrent, rfl⟩
  · exact fun _ => Alike.pure ⟨hprog, hcurrent, rfl⟩
termination_by randomxSuperscalarLatency - decodeCycle

/-! ## The finished program -/

lemma ScInstr.WellFormed.withoutReciprocal {instr : ScInstr} (h : instr.WellFormed) :
    instr.withoutReciprocal.WellFormed :=
  ⟨h.op, h.dst, h.src, h.distinct, h.displacement, h.multiplier⟩

lemma ScInstr.WellFormed.valid {instr : ScInstr} (h : instr.WellFormed)
    (hcomputed : instr.Computed) : instr.Valid :=
  ⟨h.op, h.dst, h.src, hcomputed⟩

/-- A program of the build that computes reciprocals, and that of the other build. -/
structure ScProgram.Counterpart (program program' : ScProgram) : Prop where
  valid : ∀ instr ∈ program.prog, instr.Valid
  exec : ∃ exec, program.prog.mapM ScExecInstr.decode = some exec ∧
    program.exec = installPairHandlers exec
  prog : program'.prog = program.prog.map ScInstr.withoutReciprocal
  addressReg : program'.addressReg = program.addressReg

/-- Latencies do not depend on the reciprocals. -/
lemma foldlM_asicLatencyStep_withoutReciprocal (prog : List ScInstr) (latencies : Vector ℕ 8) :
    (prog.map ScInstr.withoutReciprocal).foldlM asicLatencyStep latencies
      = prog.foldlM asicLatencyStep latencies := by
  have hstep (latencies : Vector ℕ 8) (instr : ScInstr) :
      asicLatencyStep latencies instr.withoutReciprocal = asicLatencyStep latencies instr := rfl
  rw [List.foldlM_map]
  simp only [hstep]

/-- The programs of the two builds correspond, from the same draws. -/
theorem generate_alike (rounds : ℕ) :
    Alike ScProgram.Counterpart (ScProgram.generate gen true rounds)
      (ScProgram.generate gen false rounds) := by
  have hinitial : Scheduler.initial.Counterpart Scheduler.initial :=
    ⟨fun _ hinstr => absurd hinstr List.not_mem_nil, fun hop => absurd hop (by decide), rfl⟩
  have hpaused : Scheduler.initial.Paused :=
    ⟨sound_initial, Or.inr (Or.inl ⟨le_rfl, recorded_nil _⟩)⟩
  refine Alike.bind ((fillBuffers_alike gen rounds 0 0 hinitial).and_ensures
    (fillBuffers_yields gen true rounds 0 0 hpaused).ensures) ?_
  rintro s _ ⟨⟨hcomputed, -, rfl⟩, hsound⟩
  -- what the loops leave is well-formed, so it has latencies and decodes, in both builds
  obtain ⟨latencies, hlatencies⟩ := exists_asicLatencies
    (fun instr hinstr => hsound.instrs instr (List.mem_of_mem_take hinstr)) (Vector.replicate 8 0)
  obtain ⟨exec, hexec⟩ := exists_mapM_decode hsound.instrs
  have hwellFormed : ∀ instr ∈ s.withoutReciprocals.prog, instr.WellFormed := by
    intro instr hinstr
    obtain ⟨instr, hmem, rfl⟩ := List.mem_map.mp hinstr
    exact (hsound.instrs instr hmem).withoutReciprocal
  obtain ⟨exec', hexec'⟩ := exists_mapM_decode hwellFormed
  have hlatencies' : (s.withoutReciprocals.prog.take s.withoutReciprocals.programSize).foldlM
      asicLatencyStep (Vector.replicate 8 0) = some latencies := by
    show ((s.prog.map ScInstr.withoutReciprocal).take s.programSize).foldlM _ _ = _
    rw [← List.map_take, foldlM_asicLatencyStep_withoutReciprocal]
    exact hlatencies
  rw [hlatencies, hlatencies', hexec, hexec']
  exact Alike.pure
    ⟨fun instr hinstr => (hsound.instrs instr hinstr).valid (hcomputed instr hinstr),
      ⟨exec, hexec, rfl⟩, rfl, rfl⟩

end

/-! ## Execution -/

/-- The feature sets: each has the features of the ones before it. -/
inductive Build where
  | plain
  /-- `precompute-reciprocal` -/
  | precomputed
  /-- `compact-superscalar` -/
  | compact
  /-- `unchecked-superscalar`, the default -/
  | unchecked
  deriving DecidableEq, Repr

def Build.precomputesReciprocal : Build → Bool
  | plain => false
  | _ => true

/-- `ScProgram::execute`. -/
def ScProgram.execute (build : Build) (program : ScProgram) (ds : Registers) : Option Registers :=
  match build with
  | .plain => executeReference false program.prog ds
  | .precomputed => executeReference true program.prog ds
  | .compact => executeCompact program.exec ds
  | .unchecked => executeCompactUnchecked program.exec ds

/-- The build without reciprocals computes them when a program runs. -/
lemma executeReference_withoutReciprocal (prog : List ScInstr) (ds : Registers) :
    executeReference false (prog.map ScInstr.withoutReciprocal) ds
      = executeReference false prog ds := by
  unfold executeReference
  rw [List.foldlM_map]
  rfl

/-- A pair handler's offset plays no role in the checked execution. -/
lemma executeCompact_installPairHandlers (exec : List ScExecInstr) (ds : Registers) :
    executeCompact (installPairHandlers exec) ds = executeCompact exec ds := by
  induction exec using installPairHandlers.induct generalizing ds with
  | case1 first second rest ih =>
    rw [installPairHandlers]
    unfold executeCompact at ih ⊢
    simp only [List.foldlM_cons, ih]
    rfl
  | case2 exec hshort => rw [installPairHandlers.eq_2 exec hshort]

/-- In every build a program does what the default build makes of it. -/
theorem ScProgram.Counterpart.execute_eq {program program' : ScProgram}
    (h : program.Counterpart program') (build : Build) (ds : Registers) :
    (if build.precomputesReciprocal then program else program').execute build ds
        = program.execute .unchecked ds ∧
      ∃ ds', program.execute .unchecked ds = some ds' := by
  obtain ⟨exec, hexec, hinstalled⟩ := h.exec
  obtain ⟨decoded, hdecoded, haligned, hreference⟩ := decode_program true h.valid
  obtain rfl := Option.some.inj (hexec.symm.trans hdecoded)
  have hunchecked : program.execute .unchecked ds = some (runSteps exec ds) := by
    rw [ScProgram.execute, hinstalled, executeCompactUnchecked_eq,
      executeRemainder_installPairHandlers haligned]
  refine ⟨?_, _, hunchecked⟩
  rw [hunchecked]
  cases build with
  | plain =>
    obtain ⟨decoded, hdecoded, -, hreference⟩ := decode_program false h.valid
    obtain rfl := Option.some.inj (hexec.symm.trans hdecoded)
    -- this build computes the reciprocals whenever it executes
    show executeReference false program'.prog ds = _
    rw [h.prog, executeReference_withoutReciprocal, hreference]
  | precomputed => exact hreference ds
  | compact =>
    show executeCompact program.exec ds = _
    rw [hinstalled, executeCompact_installPairHandlers, executeCompact_eq haligned]
  | unchecked => exact hunchecked

end RandomXSp1.Superscalar
