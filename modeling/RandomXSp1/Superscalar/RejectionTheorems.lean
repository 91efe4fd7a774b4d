import RandomXSp1.DrawRounds
import RandomXSp1.Superscalar.TurnTheorems

/-!
# Generation returns where its rejection loops end

Only two arms of `create` draw until a value is accepted: the rotation, for a byte that is not zero
in its low six bits, and the reciprocal multiply, for a word that is neither zero nor a power of two.
Generation returns exactly on the streams on which each of these loops that it starts comes to such
a value, and what it returns is well-formed.
-/

namespace RandomXSp1.Superscalar
open Draw (expect rejectWhile)

/-! ## Steps without a loop -/

section
variable {G : Type} (gen : Generator G) (precompute : Bool)

/-- What `create_for_slot` hands to `create`. -/
def ScInstr.infoForSlot (slotSize fetchType : ℕ) (isLast : Bool) : Draw G ScInstrInfo :=
  match slotSize with
  | 3 => do
    let byte ← gen.getByte
    if isLast then expect slot3L[(byte &&& 3).toNat]?
    else expect slot3L[(byte &&& 1).toNat]?
  | 4 => do
    if fetchType = 4 ∧ ¬isLast then return imulR
    else expect slot4[((← gen.getByte) &&& 1).toNat]?
  | 7 => do expect slot7[((← gen.getByte) &&& 1).toNat]?
  | 8 => do expect slot8[((← gen.getByte) &&& 1).toNat]?
  | 9 => do expect slot9[((← gen.getByte) &&& 1).toNat]?
  | 10 => return slot10
  | _ => throw .panic

/-- An instruction for a slot is a description that is chosen first, and then created. -/
lemma createForSlot_eq (rounds slotSize fetchType : ℕ) (isLast : Bool) :
    ScInstr.createForSlot gen precompute rounds slotSize fetchType isLast
      = ScInstr.infoForSlot gen slotSize fetchType isLast >>= ScInstr.create gen precompute rounds := by
  unfold ScInstr.createForSlot
  dsimp only
  split
  · show _ = (gen.getByte >>= fun byte => _) >>= _
    rw [bind_assoc]
    apply bind_congr
    intro byte
    cases isLast <;> rfl
  · show _ = (if fetchType = 4 ∧ ¬isLast then _ else _) >>= _
    by_cases h : fetchType = 4 ∧ ¬isLast
    · rw [if_pos h, if_pos h, pure_bind]
    · rw [if_neg h, if_neg h, bind_assoc]
  · exact (bind_assoc _ _ _).symm
  · exact (bind_assoc _ _ _).symm
  · exact (bind_assoc _ _ _).symm
  · exact (pure_bind _ _).symm
  · unfold ScInstr.infoForSlot
    split
    case h_7 => rfl
    all_goals contradiction

/-- A request returns at once. -/
lemma loopless_getByte : Loopless gen.getByte := Loopless.draw gen.byte

lemma loopless_getU32 : Loopless gen.getU32 := Loopless.draw gen.u32

/-- So does the choice of a description. -/
lemma loopless_infoForSlot (slotSize fetchType : ℕ) (isLast : Bool) :
    Loopless (ScInstr.infoForSlot gen slotSize fetchType isLast) := by
  have hslots (slots : List ScInstrInfo) (mask : U8) : Loopless (do
      let byte ← gen.getByte
      expect slots[(byte &&& mask).toNat]?) :=
    (loopless_getByte gen).bind fun _ => Loopless.expect _
  unfold ScInstr.infoForSlot
  split
  · exact (loopless_getByte gen).bind fun _ => Loopless.ite (Loopless.expect _) (Loopless.expect _)
  · exact Loopless.ite (Loopless.pure _) (hslots slot4 1)
  · exact hslots slot7 1
  · exact hslots slot8 1
  · exact hslots slot9 1
  · exact Loopless.pure _
  · exact Loopless.panic

lemma loopless_fetchNext (instr : ScInstr) (decodeCycle mulCount : ℕ) :
    Loopless (DecoderBuffer.fetchNext gen instr decodeCycle mulCount) := by
  unfold DecoderBuffer.fetchNext
  refine Loopless.ite (Loopless.pure _) (Loopless.ite (Loopless.pure _) (Loopless.ite ?_ ?_))
  · exact (loopless_getByte gen).bind fun _ => Loopless.pure _
  · exact (loopless_getByte gen).bind fun _ => Loopless.expect _

lemma loopless_selectRegister (available : List (Fin 8)) :
    Loopless (ScInstr.selectRegister gen available) := by
  unfold ScInstr.selectRegister
  refine Loopless.ite (Loopless.pure _) (Loopless.bind (Loopless.ite ?_ (Loopless.pure _)) ?_)
  · exact (loopless_getU32 gen).bind fun _ => Loopless.pure _
  · exact fun _ => (Loopless.expect _).bind fun _ => Loopless.pure _

lemma loopless_selectDestination (instr : ScInstr) (cycle : ℕ) (allowChainMul : Bool)
    (registers : RegisterInfos) :
    Loopless (instr.selectDestination gen cycle allowChainMul registers) := by
  unfold ScInstr.selectDestination
  refine (loopless_selectRegister gen _).bind fun choice => ?_
  cases choice with
  | none => exact Loopless.pure _
  | some i => exact Loopless.pure _

lemma loopless_selectSource (instr : ScInstr) (cycle : ℕ) (registers : RegisterInfos) :
    Loopless (instr.selectSource gen cycle registers) := by
  unfold ScInstr.selectSource
  dsimp only
  refine Loopless.ite (Loopless.pure _) ((loopless_selectRegister gen _).bind fun choice => ?_)
  cases choice with
  | none => exact Loopless.pure _
  | some i => exact Loopless.pure _

/-- The search for a register has no rejection loop if a try has none. -/
lemma loopless_lookForward {select : ℕ → Draw G (Option ScInstr)}
    (h : ∀ cycle, Loopless (select cycle)) (remaining scheduleCycle cycle : ℕ) :
    Loopless (lookForward select remaining scheduleCycle cycle) := by
  induction remaining generalizing scheduleCycle cycle with
  | zero => exact Loopless.pure _
  | succ remaining ih =>
    unfold lookForward
    refine (h scheduleCycle).bind fun found => ?_
    cases found with
    | none => exact ih (scheduleCycle + 1) (cycle + 1)
    | some instr => exact Loopless.pure _

lemma loopless_retire (s : Scheduler) (mop : ScMacroOp) (scheduleCycle : ℕ) :
    Loopless (s.retire mop scheduleCycle : Draw G Scheduler) := by
  unfold Scheduler.retire
  refine Loopless.bind (Loopless.ite ?_ (Loopless.pure _)) fun registers => ?_
  · split
    · exact Loopless.pure _
    · exact Loopless.panic
  · exact Loopless.ite (Loopless.pure _) (Loopless.pure _)

/-- Issuing a macro operation draws registers, but rejects none. -/
lemma loopless_issue (s : Scheduler) (throwAwayCount : ℕ) :
    Loopless (s.issue gen throwAwayCount) := by
  unfold Scheduler.issue
  refine (Loopless.expect _).bind fun mop => ?_
  generalize scheduleMop false mop s.portBusy s.cycle s.depCycle = dryRun
  obtain ⟨scheduled, portBusy⟩ := dryRun
  cases scheduled with
  | none => exact Loopless.pure _
  | some scheduleCycle =>
  refine Loopless.bind (Loopless.ite ?_ (Loopless.pure _)) fun found => ?_
  · exact loopless_lookForward (fun cycle => loopless_selectSource gen _ cycle _) _ _ _
  obtain ⟨choice, scheduleCycle, cycle⟩ := found
  cases choice with
  | none => exact Loopless.pure _
  | some instr =>
  refine Loopless.bind (Loopless.ite ?_ (Loopless.pure _)) fun found => ?_
  · exact loopless_lookForward (fun cycle => loopless_selectDestination gen _ cycle _ _) _ _ _
  obtain ⟨choice, scheduleCycle, cycle⟩ := found
  cases choice with
  | none => exact Loopless.pure _
  | some instr' =>
  simp only
  generalize scheduleMop true mop portBusy scheduleCycle scheduleCycle = commit
  obtain ⟨committed, portBusy'⟩ := commit
  cases committed with
  | none => exact Loopless.pure _
  | some start => exact (loopless_retire _ mop start).bind fun _ => Loopless.pure _

/-! ## The rejection loops -/

/-- The rejection loop of `create`, where it has one, comes to a value that it accepts. -/
def LoopEnds (info : ScInstrInfo) (g : G) : Prop :=
  match info.op with
  | .irorC => ∃ n, drawn gen.byte g n &&& 63 ≠ 0
  | .imulRcp => ∃ n, isZeroOrPowerOf2 (drawn gen.u32 g n) = false
  | _ => True

/-- More rounds change an instruction only where they were used up. -/
lemma grows_create (info : ScInstrInfo) :
    Grows fun rounds => ScInstr.create gen precompute rounds info := by
  unfold ScInstr.create
  cases info.op
  case irorC | imulRcp => exact (Grows.rejectWhile _ _).bind fun _ => Grows.const _
  all_goals exact Grows.const _

/-- The only loops are those of the two opcodes. -/
lemma create_settles (info : ScInstrInfo) (g : G) :
    Settles (fun rounds => ScInstr.create gen precompute rounds info) g ↔ LoopEnds gen info g := by
  unfold ScInstr.create LoopEnds
  cases info.op
  case irorC =>
    have hloop : Settles (Draw.rejectWhile (fun byte : U8 => byte == 0) fun g =>
        .ok ((gen.byte g).1 &&& 63, (gen.byte g).2)) g ↔
          ∃ n, (drawn (fun g => ((gen.byte g).1 &&& 63, (gen.byte g).2)) g n == 0) = false :=
      settles_rejectWhile
    refine (settles_bind_loopless (Grows.rejectWhile _ _) fun _ => Loopless.pure _).trans ?_
    exact hloop.trans (exists_congr fun n => beq_eq_false_iff_ne)
  case imulRcp =>
    refine (settles_bind_loopless (Grows.rejectWhile _ _) fun _ => ?_).trans settles_rejectWhile
    exact Loopless.bind (Loopless.ite (Loopless.expect _) (Loopless.pure _)) fun _ => Loopless.pure _
  case invalid | count => exact iff_of_true (Loopless.panic.settles g) trivial
  case isubR | ixorR | imulR => exact iff_of_true ((Loopless.pure _).settles g) trivial
  case iaddRs =>
    exact iff_of_true (((loopless_getByte gen).bind fun _ => Loopless.pure _).settles g) trivial
  all_goals
    exact iff_of_true (((loopless_getU32 gen).bind fun _ => Loopless.pure _).settles g) trivial

lemma grows_createForSlot (slotSize fetchType : ℕ) (isLast : Bool) :
    Grows fun rounds => ScInstr.createForSlot gen precompute rounds slotSize fetchType isLast := by
  simp only [createForSlot_eq]
  exact (Grows.const _).bind (grows_create gen precompute)

lemma createForSlot_settles (slotSize fetchType : ℕ) (isLast : Bool) (g : G) :
    Settles (fun rounds =>
        ScInstr.createForSlot gen precompute rounds slotSize fetchType isLast) g ↔
      ∀ info h, ScInstr.infoForSlot gen slotSize fetchType isLast g = .ok (info, h) →
        LoopEnds gen info h := by
  simp only [createForSlot_eq]
  rw [settles_bind (Grows.const _) fun _ _ info _ _ => grows_create gen precompute info]
  simp only [create_settles]
  have hinfo := (loopless_infoForSlot gen slotSize fetchType isLast).settles g
  exact ⟨fun h info => h.2 0 info, fun h => ⟨hinfo, fun _ => h⟩⟩

/-! ## Turns -/

namespace Generation

/-- The turn creates an instruction with this info, from this state of the generator. -/
def Creates (c : Generation) (g : G) (info : ScInstrInfo) (h : G) : Prop :=
  ∃ buffer bufferIndex slotSize, c.point = .slot buffer bufferIndex ∧ c.s.Spent ∧
    ¬(c.s.portsSaturated ∨ c.s.programSize ≥ superscalarMaxSize) ∧
    buffer.counts[bufferIndex]? = some slotSize ∧
    ScInstr.infoForSlot gen slotSize buffer.index (buffer.size = bufferIndex + 1) g = .ok (info, h)

lemma grows_takeUp (buffer : DecoderBuffer) (bufferIndex : ℕ) (s : Scheduler) :
    Grows fun rounds => s.takeUp gen precompute rounds buffer bufferIndex := by
  unfold Scheduler.takeUp
  refine Grows.ite ((Grows.const _).bind fun slotSize => ?_) (Grows.const _)
  exact (grows_createForSlot gen precompute _ _ _).bind fun _ => Grows.const _

/-- A loop starts only where a new instruction is taken up. -/
lemma takeUp_settles (buffer : DecoderBuffer) (bufferIndex : ℕ) (s : Scheduler) (g : G) :
    Settles (fun rounds => s.takeUp gen precompute rounds buffer bufferIndex) g ↔
      (s.Spent → ∀ slotSize, buffer.counts[bufferIndex]? = some slotSize → ∀ info h,
        ScInstr.infoForSlot gen slotSize buffer.index (buffer.size = bufferIndex + 1) g
          = .ok (info, h) → LoopEnds gen info h) := by
  unfold Scheduler.takeUp
  by_cases hspent : s.macroOpIndex ≥ s.currentInstr.info.size
  · simp only [if_pos hspent]
    have hgrows (slotSize : ℕ) := grows_createForSlot gen precompute slotSize buffer.index
      (buffer.size = bufferIndex + 1)
    have hcreate (slotSize : ℕ) (g : G) := (settles_bind_loopless (g := g) (hgrows slotSize)
      fun instr => Loopless.pure { s with currentInstr := instr, macroOpIndex := 0 }).trans
        (createForSlot_settles gen precompute _ _ _ g)
    refine (settles_bind (Grows.const (expect buffer.counts[bufferIndex]?)) fun _ _ slotSize _ _ =>
      (hgrows slotSize).bind fun instr =>
        Grows.const (pure { s with currentInstr := instr, macroOpIndex := 0 })).trans ?_
    simp only [hcreate]
    constructor
    · rintro ⟨-, h⟩ - slotSize hcount
      exact h 0 slotSize g (by rw [hcount]; rfl)
    · intro h
      refine ⟨(Loopless.expect _).settles g, ?_⟩
      intro _ slotSize g' hexpect
      obtain ⟨hcount, rfl⟩ := Draw.eq_of_expect hexpect
      exact h hspent slotSize hcount
  · simp only [if_neg hspent]
    exact iff_of_true ((Loopless.pure s).settles g) fun h => absurd h hspent

lemma grows_turn (c : Generation) : Grows fun rounds => c.turn gen precompute rounds := by
  unfold turn
  cases c.point with
  | fetch => exact Grows.const _
  | slot buffer bufferIndex =>
    refine Grows.ite (Grows.ite (Grows.const _) ?_) (Grows.const _)
    exact (grows_takeUp gen precompute buffer bufferIndex c.s).bind fun _ => Grows.const _

/-- A turn that creates no instruction has no loop. -/
lemma turn_settles (c : Generation) (g : G) :
    Settles (fun rounds => c.turn gen precompute rounds) g ↔
      ∀ info h, c.Creates gen g info h → LoopEnds gen info h := by
  unfold turn Creates
  cases c.point with
  | fetch =>
    have hfetch : Loopless (do
        let buffer ← DecoderBuffer.fetchNext gen c.s.currentInstr c.decodeCycle c.s.mulCount
        return (Event.fetched buffer, { c with point := .slot buffer 0 })) :=
      (loopless_fetchNext gen _ _ _).bind fun _ => Loopless.pure _
    refine iff_of_true (hfetch.settles g) ?_
    rintro info h ⟨buffer, bufferIndex, -, hpoint, -⟩
    cases hpoint
  | slot buffer bufferIndex =>
    dsimp only
    by_cases hslot : bufferIndex < buffer.size
    · simp only [if_pos hslot]
      by_cases hfull : c.s.macroOpIndex ≥ c.s.currentInstr.info.size ∧
          (c.s.portsSaturated ∨ c.s.programSize ≥ superscalarMaxSize)
      · simp only [if_pos hfull]
        refine iff_of_true ((Loopless.pure _).settles g) ?_
        rintro info h ⟨-, -, -, -, -, hroom, -⟩
        exact absurd hfull.2 hroom
      · simp only [if_neg hfull]
        rw [settles_bind_loopless (grows_takeUp gen precompute buffer bufferIndex c.s) fun s =>
          (loopless_issue gen s _).bind fun _ => Loopless.pure _, takeUp_settles]
        constructor
        · rintro htake info h ⟨_, _, slotSize, ⟨⟩, hspent, -, hcount, hinfo⟩
          exact htake hspent slotSize hcount info h hinfo
        · intro hcreates hspent slotSize hcount info h hinfo
          exact hcreates info h ⟨buffer, bufferIndex, slotSize, rfl, hspent,
            fun hroom => hfull ⟨hspent, hroom⟩, hcount, hinfo⟩
    · simp only [if_neg hslot]
      refine iff_of_true ((Loopless.pure _).settles g) ?_
      rintro info h ⟨_, _, slotSize, ⟨⟩, -, -, hcount, -⟩
      exact absurd (List.getElem?_eq_some_iff.mp hcount).1 hslot

end Generation

/-! ## Runs -/

/-- On what the generator returns from here on, every rejection loop that generation starts comes to
a value that it accepts. -/
def RejectionLoopsEnd (g : G) : Prop :=
  ∀ rounds trace c h, Runs Generation.Running (Generation.turn gen precompute rounds)
      Generation.initial g trace c h →
    ∀ info h', c.Creates gen h info h' → LoopEnds gen info h'

lemma grows_fillBuffers : Grows fun rounds =>
    fillBuffers gen precompute rounds 0 0 Scheduler.initial := by
  have hgrows : Grows fun rounds => Generation.finish gen precompute rounds Generation.initial :=
    grows_of_unfold
      (fun rounds _ => Generation.turn_descends gen precompute rounds)
      (Generation.grows_turn gen precompute)
      (fun rounds _ => Generation.finish_of_running gen precompute rounds)
      (fun rounds _ => Generation.finish_of_not_running gen precompute rounds)
      Generation.lawful_initial
  exact hgrows

/-- The buffers are filled exactly where every loop of the runs ends. -/
lemma fillBuffers_settles (g : G) :
    Settles (fun rounds => fillBuffers gen precompute rounds 0 0 Scheduler.initial) g ↔
      RejectionLoopsEnd gen precompute g := by
  have hsettles : Settles (fun rounds => Generation.finish gen precompute rounds
      Generation.initial) g ↔ ∀ rounds trace c h,
        Runs Generation.Running (Generation.turn gen precompute rounds) Generation.initial g
          trace c h → c.Running →
        Settles (fun rounds => Generation.turn gen precompute rounds c) h :=
    settles_of_unfold
      (fun rounds _ => Generation.turn_descends gen precompute rounds)
      (Generation.grows_turn gen precompute)
      (fun rounds _ => Generation.finish_of_running gen precompute rounds)
      (fun rounds _ => Generation.finish_of_not_running gen precompute rounds)
      Generation.lawful_initial
  refine Iff.trans hsettles ?_
  unfold RejectionLoopsEnd
  simp only [Generation.turn_settles]
  constructor
  · intro h rounds trace c h' hruns info h'' hcreates
    have hrun : c.Running := by
      obtain ⟨buffer, bufferIndex, -, hpoint, -⟩ := hcreates
      unfold Generation.Running
      rw [hpoint]
      exact trivial
    exact h rounds trace c h' hruns hrun info h'' hcreates
  · exact fun h rounds trace c h' hruns _ => h rounds trace c h' hruns

lemma grows_generate : Grows fun rounds => ScProgram.generate gen precompute rounds :=
  (grows_fillBuffers gen precompute).bind fun _ => Grows.const _

/-- The loops end on the streams for which some grant is enough, and on no others. -/
theorem generate_settles (g : G) :
    Settles (fun rounds => ScProgram.generate gen precompute rounds) g ↔
      RejectionLoopsEnd gen precompute g := by
  refine (settles_bind_loopless (grows_fillBuffers gen precompute) fun s => ?_).trans
    (fillBuffers_settles gen precompute g)
  exact (Loopless.expect _).bind fun _ => (Loopless.expect _).bind fun _ => Loopless.pure _

/-- Where its rejection loops end, generation does not panic, whatever rounds they are granted, and
with enough rounds it returns one program, which is well-formed. -/
theorem generate_wellFormed (g : G) (hloops : RejectionLoopsEnd gen precompute g) :
    (∀ rounds, ScProgram.generate gen precompute rounds g ≠ .error .panic) ∧
      ∃ program h, WellFormed program.prog ∧ ∃ needed, ∀ rounds, needed ≤ rounds →
        ScProgram.generate gen precompute rounds g = .ok (program, h) := by
  constructor
  · intro rounds hpanic
    have hyields := generate_yields gen precompute rounds g
    rw [hpanic] at hyields
    cases hyields
  · obtain ⟨rounds, hrounds⟩ := (generate_settles gen precompute g).mpr hloops
    obtain ⟨program, h, hgenerate, hwell⟩ := (generate_yields gen precompute rounds).returns hrounds
    exact ⟨program, h, hwell, rounds,
      fun rounds' hle => (grows_generate gen precompute).eq_ok hle hgenerate⟩

/-! ## Generators that accept -/

/-- Whatever it returned so far, the generator comes to values that both loops accept. -/
structure Generator.Accepting (gen : Generator G) : Prop where
  byte : ∀ g, ∃ n, drawn gen.byte g n &&& 63 ≠ 0
  u32 : ∀ g, ∃ n, isZeroOrPowerOf2 (drawn gen.u32 g n) = false

/-- A generator that accepts ends every loop, wherever it starts. -/
lemma Generator.Accepting.rejectionLoopsEnd {gen : Generator G} (h : gen.Accepting) (g : G) :
    RejectionLoopsEnd gen precompute g := by
  intro _ _ _ _ _ info h' _
  unfold LoopEnds
  split
  · exact h.byte h'
  · exact h.u32 h'
  · exact trivial

end

namespace Blake2Generator

variable (byte : U8) (g : Blake2Generator)

/-- A request of some bytes finds a new buffer, or goes on in the old one. -/
lemma checkData_repeated (needed : ℕ) :
    (g.checkData (repeated byte) needed).data = Vector.replicate _ byte ∨
      g.index + needed ≤ blakeGenDataLen ∧ g.checkData (repeated byte) needed = g := by
  by_cases hfull : g.index + needed > blakeGenDataLen
  · left
    unfold checkData
    rw [if_pos hfull]
    rfl
  · exact Or.inr ⟨Nat.le_of_not_lt hfull, if_neg hfull⟩

lemma getByte_repeated : (g.getByte (repeated byte)).1 = byte ∨
    g.index < blakeGenDataLen ∧ (g.getByte (repeated byte)).2.index = g.index + 1 := by
  refine (checkData_repeated byte g 1).imp (fun hdata => ?_) fun ⟨hle, hsame⟩ => ?_
  · show (g.checkData (repeated byte) 1).data.get _ = byte
    rw [hdata]
    exact Vector.getElem_replicate _
  · refine ⟨hle, ?_⟩
    show (g.checkData (repeated byte) 1).index + 1 = _
    rw [hsame]

lemma getU32_repeated : (g.getU32 (repeated byte)).1 = byte ++ byte ++ byte ++ byte ∨
    g.index < blakeGenDataLen ∧ (g.getU32 (repeated byte)).2.index = g.index + 4 := by
  refine (checkData_repeated byte g 4).imp (fun hdata => ?_) fun ⟨hle, hsame⟩ => ?_
  · unfold getU32
    dsimp only
    rw [hdata]
    have hget (i : Fin blakeGenDataLen) : (Vector.replicate blakeGenDataLen byte).get i = byte :=
      Vector.getElem_replicate i.isLt
    rw [hget, hget, hget, hget]
  · refine ⟨by omega, ?_⟩
    show (g.checkData (repeated byte) 4).index + 4 = _
    rw [hsame]

/-- The old buffer is used up at some point, and the new one has accepted values only. -/
lemma exists_drawn {α : Type} {step : Blake2Generator → α × Blake2Generator} (accepted : α → Prop)
    (h : ∀ g, accepted (step g).1 ∨ g.index < blakeGenDataLen ∧ g.index < (step g).2.index) :
    ∃ n, accepted (drawn step g n) := by
  induction hleft : blakeGenDataLen - g.index using Nat.strong_induction_on generalizing g with
  | h left ih =>
    rcases h g with haccepted | ⟨hlt, hnext⟩
    · exact ⟨0, haccepted⟩
    · obtain ⟨n, hn⟩ := ih _ (by omega) (step g).2 rfl
      exact ⟨n + 1, hn⟩

variable {byte} in
/-- A byte that both loops accept makes the generator accept: once its old buffer is used up, it
returns nothing else. -/
lemma accepting_repeated (hbyte : byte &&& 63 ≠ 0)
    (hword : isZeroOrPowerOf2 (byte ++ byte ++ byte ++ byte) = false) :
    (generator (repeated byte)).Accepting where
  byte g := by
    refine exists_drawn g (fun value => value &&& 63 ≠ 0) fun g => ?_
    refine (getByte_repeated byte g).imp (fun heq => ?_) fun ⟨hlt, hnext⟩ => ⟨hlt, ?_⟩
    · show (g.getByte (repeated byte)).1 &&& 63 ≠ 0
      rwa [heq]
    · show g.index < (g.getByte (repeated byte)).2.index
      omega
  u32 g := by
    refine exists_drawn g (fun value => isZeroOrPowerOf2 value = false) fun g => ?_
    refine (getU32_repeated byte g).imp (fun heq => ?_) fun ⟨hlt, hnext⟩ => ⟨hlt, ?_⟩
    · show isZeroOrPowerOf2 (g.getU32 (repeated byte)).1 = false
      rwa [heq]
    · show g.index < (g.getU32 (repeated byte)).2.index
      omega

end Blake2Generator

/-- On bytes that both loops accept at once. -/
theorem generate_wellFormed_repeated :
    ∃ program h, WellFormed program.prog ∧ ∃ needed, ∀ rounds, needed ≤ rounds →
      ScProgram.generate (Blake2Generator.generator (repeated 0xa9)) true rounds
        (Blake2Generator.new [] 0) = .ok (program, h) :=
  (generate_wellFormed (Blake2Generator.generator (repeated 0xa9)) true (Blake2Generator.new [] 0)
    ((Blake2Generator.accepting_repeated (by decide) (by decide)).rejectionLoopsEnd true _)).2

end RandomXSp1.Superscalar
