import RandomXSp1.Reciprocal
import RandomXSp1.Vm.OptimizedRun
import RandomXSp1.Vm.ReferenceTheorems

/-!
# The two decoders

Both decoders read a word as the same operation, so their instructions do the same to every
state. What the optimized decoder records about registers covers every write, and a branch of a
decoded program jumps back only over instructions that leave its register alone.
-/

namespace RandomXSp1

/-! ## Agreement -/

/-- The decoders leave the same usage, and their instructions take equal states to equal states,
whatever the lane arithmetic. -/
theorem decodeInstruction_agree (raw : U64) (index : ℤ) (usage : Vector ℤ 8) :
    ∃ instr instr' usage',
      Optimized.decodeInstruction raw index usage = some (instr, usage') ∧
      Reference.decodeInstruction raw index usage = some (instr', usage') ∧
      ∀ (vm : Vm) (arith host : LaneCall → U64), vm.scratchpad.size = scratchpadWords →
        vm.roundingMode < 4 → (∀ call, host call = arith call ∧ host call.swap = arith call) →
        ∃ vm', instr.run vm (fun call => some (arith call)) = some vm' ∧
          instr'.execute vm host = some vm' := by
  obtain ⟨instr, hinstr, himplements, -⟩ :=
    Optimized.decodeInstruction_decodes raw index usage
  obtain ⟨instr', hinstr', hfollows⟩ := Reference.decodeInstruction_decodes raw index usage
  refine ⟨instr, instr', _, hinstr, hinstr', ?_⟩
  intro vm arith host hsize hmode hhost
  obtain ⟨m, rfl⟩ := Machine.exists_toVm hsize hmode
  obtain ⟨m', hexec⟩ := Op.exists_exec arith (decodeOp raw usage) m
  refine ⟨m'.toVm, ?_, ?_⟩
  · rw [himplements, hexec]
    rfl
  · apply hfollows m m' (fun call => some (arith call)) host _ hexec
    intro call value hvalue
    obtain rfl := Option.some.inj hvalue
    exact hhost call

/-- A machine with values in its registers and in its scratchpad. -/
def Machine.sample : Machine where
  mx := 0
  ma := 0
  r := #v[3, 5, 0, 0, 0, 0, 0, 0]
  f := Vector.replicate 4 M128d.zero
  e := Vector.replicate 4 M128d.zero
  a := Vector.replicate 4 M128d.zero
  scratchpad := Vector.replicate scratchpadWords 7
  pc := 0
  eMask := Vector.replicate 2 0
  readReg := Vector.replicate 4 0
  mem := SeedMemory.noMemory
  datasetOffset := 0
  mode := .up

/-- An `IADD_M` of the scratchpad into register 0. -/
lemma decodeInstruction_agree_iaddM :
    ∃ instr instr' usage' vm',
      Optimized.decodeInstruction 0x800010010 3 (Vector.replicate 8 (-1)) = some (instr, usage') ∧
      Reference.decodeInstruction 0x800010010 3 (Vector.replicate 8 (-1)) = some (instr', usage') ∧
      instr.run Machine.sample.toVm (fun _ => some 0) = some vm' ∧
      instr'.execute Machine.sample.toVm (fun _ => 0) = some vm' ∧
      vm'.r = #v[10, 5, 0, 0, 0, 0, 0, 0] := by
  obtain ⟨instr, instr', usage', hinstr, hinstr', hagree⟩ :=
    decodeInstruction_agree 0x800010010 3 (Vector.replicate 8 (-1))
  obtain ⟨vm', hrun, hexecute⟩ := hagree Machine.sample.toVm (fun _ => 0) (fun _ => 0)
    (Machine.toVm_scratchpad_size _) (Machine.toVm_roundingMode_lt _) (fun _ => ⟨rfl, rfl⟩)
  refine ⟨instr, instr', usage', vm', hinstr, hinstr', hrun, hexecute, ?_⟩
  obtain ⟨decoded, hdecoded, himplements, -⟩ :=
    Optimized.decodeInstruction_decodes 0x800010010 3 (Vector.replicate 8 (-1))
  obtain rfl := (Prod.mk.inj (Option.some.inj (hinstr.symm.trans hdecoded))).1
  have hop : decodeOp 0x800010010 (Vector.replicate 8 (-1)) = .int .add 0 (.mem ⟨some 1, 8, .l2⟩) :=
    rfl
  have hload : Machine.sample.load ⟨some 1, 8, .l2⟩ = 7 := Vector.getElem_replicate _
  have hexec : Op.exec (fun _ => some 0) Machine.sample (.int .add 0 (.mem ⟨some 1, 8, .l2⟩))
      = some (Machine.sample.setR 0 (3 + Machine.sample.load ⟨some 1, 8, .l2⟩)) := rfl
  rw [himplements, hop, hexec, hload] at hrun
  obtain rfl := Option.some.inj hrun
  rfl

/-! ## Frames -/

/-- An instruction does not change the registers its operation does not write. -/
lemma r_of_run {instr : Optimized.CompactInstr} {op : Op} (himplements : instr.Implements op)
    {vm vm' : Vm} {ops : LaneOps} (hsize : vm.scratchpad.size = scratchpadWords)
    (hmode : vm.roundingMode < 4) (hrun : instr.run vm ops = some vm') {j : Fin 8}
    (hj : j ∉ op.writes) : vm'.r[j] = vm.r[j] := by
  obtain ⟨m, rfl⟩ := Machine.exists_toVm hsize hmode
  rw [himplements] at hrun
  obtain ⟨m', hexec, rfl⟩ := Option.map_eq_some_iff.mp hrun
  exact Op.r_of_exec hj hexec

/-- A branch of a decoded program jumps to an earlier index, and what lies between is no branch
and leaves the register of the branch as it is; decoding a word records every register that it
can change. -/
theorem branchTarget_sound :
    (∀ (bytes : List U128) (program : Optimized.CompactProgram),
      Optimized.CompactProgram.fromBytes bytes = some program →
      ∀ (i : ℕ) (instr : Optimized.CompactInstr), program.instructions[i]? = some instr →
        instr.effect = .cbranch →
        ∃ d : Fin 8, instr.dst = Optimized.intOffset d ∧ -1 ≤ instr.target ∧ instr.target < i ∧
          ∀ (k : ℕ) (between : Optimized.CompactInstr), program.instructions[k]? = some between →
            instr.target < k → k < i → between.effect ≠ .cbranch ∧
              ∀ (vm vm' : Vm) (ops : LaneOps), vm.scratchpad.size = scratchpadWords →
                vm.roundingMode < 4 → between.run vm ops = some vm' → vm'.r[d] = vm.r[d]) ∧
    (∀ (raw : U64) (k : ℤ) (usage : Vector ℤ 8), ∃ instr usage',
      Optimized.decodeInstruction raw k usage = some (instr, usage') ∧
        ∀ (vm vm' : Vm) (ops : LaneOps) (j : Fin 8), vm.scratchpad.size = scratchpadWords →
          vm.roundingMode < 4 → instr.run vm ops = some vm' → vm'.r[j] ≠ vm.r[j] →
            usage'[j] = k) := by
  constructor
  · intro bytes program hprogram i instr hinstr heffect
    have hencodes := (Optimized.encodes_of_fromBytes hprogram).2.2
    obtain ⟨op, hop, -, hjumps⟩ := Optimized.exists_op_of_getElem hencodes hinstr
    obtain ⟨d, imm, condition, rfl, hdst⟩ := hjumps.eq_branch heffect
    obtain ⟨hlow, hhigh, hbetween⟩ :=
      targetsSound_decodeOps (instructionWords bytes) i d imm condition instr.target hop
    refine ⟨d, hdst, hlow, hhigh, ?_⟩
    intro k between hget hk hki
    obtain ⟨op', hop', himplements, hjumps'⟩ := Optimized.exists_op_of_getElem hencodes hget
    -- what lies between leaves the register alone, as its usage is recorded before the branch
    have hleaves := hbetween k op' hop' hk hki
    constructor
    · intro hbranch
      exact absurd (hjumps'.isBranch hbranch) (by rw [hleaves.1]; exact Bool.false_ne_true)
    · intro vm vm' ops hsize hmode hrun
      exact r_of_run himplements hsize hmode hrun hleaves.2
  · intro raw k usage
    obtain ⟨instr, hinstr, himplements, -⟩ := Optimized.decodeInstruction_decodes raw k usage
    refine ⟨instr, _, hinstr, ?_⟩
    intro vm vm' ops j hsize hmode hrun hj
    -- a register is marked, or the operation cannot change it
    rcases (decodeOp raw usage).getElem_marks k usage j with ⟨-, hmark⟩ | ⟨hleaves, -⟩
    · exact hmark
    · exact absurd (r_of_run himplements hsize hmode hrun hleaves.2) hj

/-- The second branch jumps back to the first one, over an `INEG_R` of another register. -/
lemma branchTarget_sound_mixed :
    ∃ program instr between decoded vm' usage',
      Optimized.CompactProgram.fromBytes mixedBytes = some program ∧
      program.instructions[31]? = some instr ∧ instr.effect = .cbranch ∧ instr.target = 15 ∧
      program.instructions[30]? = some between ∧ between.effect ≠ .cbranch ∧
      between.run Machine.sample.toVm (fun _ => some 0) = some vm' ∧
      vm'.r.get 4 = Machine.sample.r.get 4 ∧
      Optimized.decodeInstruction 0x0154 30 (Vector.replicate 8 15) = some (decoded, usage') ∧
      decoded.run Machine.sample.toVm (fun _ => some 0) = some vm' ∧
      vm'.r.get 1 ≠ Machine.sample.r.get 1 ∧ usage'.get 1 = 30 := by
  obtain ⟨program, hprogram, -, hencodes⟩ := Optimized.exists_fromBytes length_mixedBytes
  have hbranch : (programOps mixedBytes)[31]? = some (.branch 4 0 0 15) := rfl
  have hneg : (programOps mixedBytes)[30]? = some (.neg 1) := rfl
  obtain ⟨instr, hinstr, -, heffect, hdst, htarget⟩ :=
    Optimized.exists_instr_of_getElem hencodes hbranch
  obtain ⟨between, hbetween, himplements, -⟩ := Optimized.exists_instr_of_getElem hencodes hneg
  have hrun := himplements Machine.sample (fun _ => some 0)
  -- the jump, and the frame of what it passes
  obtain ⟨d, hd, -, -, hpassed⟩ :=
    branchTarget_sound.1 mixedBytes program hprogram 31 instr hinstr heffect
  have hinj : ∀ d : Fin 8, Optimized.intOffset 4 = Optimized.intOffset d → d = 4 := by decide
  obtain rfl := hinj d (hdst.symm.trans hd)
  obtain ⟨hother, hframe⟩ := hpassed 30 between hbetween (by rw [htarget]; decide) (by decide)
  have hframe := hframe _ _ _ (Machine.toVm_scratchpad_size _) (Machine.toVm_roundingMode_lt _) hrun
  -- the register it writes is recorded
  obtain ⟨decoded, usage', hdecoded, hrecords⟩ :=
    branchTarget_sound.2 0x0154 30 (Vector.replicate 8 15)
  obtain ⟨decoded', hdecoded', himplements', -⟩ :=
    Optimized.decodeInstruction_decodes 0x0154 30 (Vector.replicate 8 15)
  obtain rfl := (Prod.mk.inj (Option.some.inj (hdecoded.symm.trans hdecoded'))).1
  have hrun' := himplements' Machine.sample (fun _ => some 0)
  have hchanged : (Machine.sample.setR 1 (~~~5 + 1)).r.get 1 ≠ Machine.sample.r.get 1 := by decide
  exact ⟨program, instr, between, decoded, _, usage', hprogram, hinstr, heffect, htarget, hbetween,
    hother, hrun, hframe, hdecoded, hrun', hchanged,
    hrecords _ _ _ 1 (Machine.toVm_scratchpad_size _) (Machine.toVm_roundingMode_lt _) hrun' hchanged⟩

/-! ## Reciprocals -/

/-- The divisor of a reciprocal multiplication. -/
def divisorField (raw : U64) : U64 := (immField raw).setWidth 64

/-- Both decoders reach the same case of their chains of comparisons. -/
lemma not_opcodeField_lt {raw : U64} (hlow : 0x4c ≤ opcodeField raw) (n : ℕ) (hn : n ≤ 0x4c) :
    ¬opcodeField raw < n := by
  omega

/-- The field of a decoded reciprocal multiplication that marks it as having no effect. -/
def MarksReciprocal (raw : U64) (field : U64) : Prop :=
  if isZeroOrPowerOf2 (divisorField raw) then field = 0
  else randomxReciprocal (divisorField raw) = some field

section
variable {raw : U64} (hlow : 0x4c ≤ opcodeField raw) (hhigh : opcodeField raw < 0x54) (index : ℤ)
  (usage : Vector ℤ 8)
include hlow hhigh

lemma Optimized.decodeInstruction_imulRcp :
    ∃ instr usage', Optimized.decodeInstruction raw index usage = some (instr, usage') ∧
      instr.effect = .imulRcp ∧ MarksReciprocal raw instr.imm := by
  have hge := not_opcodeField_lt hlow
  unfold Optimized.decodeInstruction MarksReciprocal
  dsimp only
  rw [show (raw &&& 0xff).toNat = opcodeField raw from rfl,
    show ((raw >>> 32).setWidth 32 : U32) = immField raw from rfl,
    show (immField raw).setWidth 64 = divisorField raw from rfl, if_neg (hge 0x10 (by decide)),
    if_neg (hge 0x17 (by decide)), if_neg (hge 0x27 (by decide)), if_neg (hge 0x2e (by decide)),
    if_neg (hge 0x3e (by decide)), if_neg (hge 0x42 (by decide)), if_neg (hge 0x46 (by decide)),
    if_neg (hge 0x47 (by decide)), if_neg (hge 0x4b (by decide)), if_neg (hge 0x4c le_rfl),
    if_pos hhigh]
  by_cases hdivisor : isZeroOrPowerOf2 (divisorField raw) = true
  · simp only [if_pos hdivisor]
    exact ⟨_, _, rfl, rfl, rfl⟩
  · obtain ⟨q, hq⟩ := exists_randomxReciprocal
      (ne_zero_of_not_isZeroOrPowerOf2 (Bool.eq_false_of_not_eq_true hdivisor))
    simp only [if_neg hdivisor, hq]
    exact ⟨_, _, rfl, rfl, rfl⟩

lemma Reference.decodeInstruction_imulRcp :
    ∃ instr usage', Reference.decodeInstruction raw index usage = some (instr, usage') ∧
      instr.effect = .imulRcp ∧ MarksReciprocal raw instr.reciprocal := by
  have hge := not_opcodeField_lt hlow
  unfold Reference.decodeInstruction MarksReciprocal
  dsimp only
  rw [show (raw &&& 0xff).toNat = opcodeField raw from rfl, Reference.imm_eq,
    show (immField raw).setWidth 64 = divisorField raw from rfl, if_neg (hge 0x10 (by decide)),
    if_neg (hge 0x17 (by decide)), if_neg (hge 0x27 (by decide)), if_neg (hge 0x2e (by decide)),
    if_neg (hge 0x3e (by decide)), if_neg (hge 0x42 (by decide)), if_neg (hge 0x46 (by decide)),
    if_neg (hge 0x47 (by decide)), if_neg (hge 0x4b (by decide)), if_neg (hge 0x4c le_rfl),
    if_pos hhigh]
  by_cases hdivisor : isZeroOrPowerOf2 (divisorField raw) = true
  · simp only [if_pos hdivisor]
    exact ⟨_, _, rfl, rfl, rfl⟩
  · obtain ⟨q, hq⟩ := exists_randomxReciprocal
      (ne_zero_of_not_isZeroOrPowerOf2 (Bool.eq_false_of_not_eq_true hdivisor))
    simp only [if_neg hdivisor, hq]
    exact ⟨_, _, rfl, rfl, rfl⟩

end

/-- A reciprocal is never zero. -/
lemma two_pow_le_of_randomxReciprocal {divisor q : U64} (hzero : divisor ≠ 0)
    (hpow : ∀ k, divisor.toNat ≠ 2 ^ k) (h : randomxReciprocal divisor = some q) :
    2 ^ 63 ≤ q.toNat := by
  have hne : divisor.toNat ≠ 0 := fun h => hzero (BitVec.eq_of_toNat_eq h)
  obtain ⟨q', hq', hquotient⟩ := randomxReciprocal_eq hzero hpow
  obtain rfl := Option.some.inj (h.symm.trans hq')
  rw [hquotient]
  exact (quotient_bounds hne hpow).1

/-- The mark is zero exactly for the divisors that have no reciprocal. -/
lemma MarksReciprocal.eq_zero_iff {raw field : U64} (h : MarksReciprocal raw field) :
    field = 0 ↔ divisorField raw = 0 ∨ ∃ k, (divisorField raw).toNat = 2 ^ k := by
  rw [← isZeroOrPowerOf2_iff]
  unfold MarksReciprocal at h
  split at h
  · rename_i hdivisor
    exact iff_of_true h hdivisor
  · rename_i hdivisor
    have hnot := hdivisor
    rw [isZeroOrPowerOf2_iff, not_or, not_exists] at hnot
    have hle := two_pow_le_of_randomxReciprocal hnot.1 hnot.2 h
    refine iff_of_false ?_ hdivisor
    rintro rfl
    exact absurd hle (by decide)

/-- The reciprocal is the quotient of the largest power of two that keeps it below `2^64`, and it
fills 64 bits; so zero marks, in both decoders, exactly the multiplications that do nothing. -/
theorem randomxReciprocal_eq_floor :
    (∀ divisor : U64, divisor ≠ 0 → (∀ k, divisor.toNat ≠ 2 ^ k) →
      ∃ q, randomxReciprocal divisor = some q ∧
        q.toNat = 2 ^ (63 + divisor.toNat.size) / divisor.toNat ∧
        (∀ x, 2 ^ x / divisor.toNat < 2 ^ 64 ↔ x ≤ 63 + divisor.toNat.size) ∧
        2 ^ 63 ≤ q.toNat ∧ q ≠ 0) ∧
    (∀ (raw : U64) (index : ℤ) (usage : Vector ℤ 8), 0x4c ≤ opcodeField raw →
      opcodeField raw < 0x54 →
      ∃ instr usage₁ instr' usage₂,
        Optimized.decodeInstruction raw index usage = some (instr, usage₁) ∧
        Reference.decodeInstruction raw index usage = some (instr', usage₂) ∧
        instr.effect = .imulRcp ∧ instr'.effect = .imulRcp ∧
        (instr.imm = 0 ↔ divisorField raw = 0 ∨ ∃ k, (divisorField raw).toNat = 2 ^ k) ∧
        (instr'.reciprocal = 0 ↔
          divisorField raw = 0 ∨ ∃ k, (divisorField raw).toNat = 2 ^ k)) := by
  constructor
  · intro divisor hzero hpow
    have hne : divisor.toNat ≠ 0 := fun h => hzero (BitVec.eq_of_toNat_eq h)
    obtain ⟨q, hq, hquotient⟩ := randomxReciprocal_eq hzero hpow
    have hle := two_pow_le_of_randomxReciprocal hzero hpow hq
    refine ⟨q, hq, hquotient, ?_, hle, ?_⟩
    · intro x
      refine ⟨le_of_quotient_lt hne, fun hx => ?_⟩
      calc 2 ^ x / divisor.toNat ≤ 2 ^ (63 + divisor.toNat.size) / divisor.toNat :=
            Nat.div_le_div_right (Nat.pow_le_pow_right (by decide) hx)
        _ < 2 ^ 64 := (quotient_bounds hne hpow).2
    · rintro rfl
      exact absurd hle (by decide)
  · intro raw index usage hlow hhigh
    obtain ⟨instr, usage₁, hinstr, heffect, hmark⟩ :=
      Optimized.decodeInstruction_imulRcp hlow hhigh index usage
    obtain ⟨instr', usage₂, hinstr', heffect', hmark'⟩ :=
      Reference.decodeInstruction_imulRcp hlow hhigh index usage
    exact ⟨instr, usage₁, instr', usage₂, hinstr, hinstr', heffect, heffect', hmark.eq_zero_iff,
      hmark'.eq_zero_iff⟩

lemma randomxReciprocal_eq_floor_three :
    (∃ q, randomxReciprocal 3 = some q ∧ q.toNat = 12297829382473034410) ∧
      ∃ instr usage', Optimized.decodeInstruction 0x30000004c 0 (Vector.replicate 8 (-1))
        = some (instr, usage') ∧ instr.imm ≠ 0 := by
  have hpow : ∀ k, (3 : U64).toNat ≠ 2 ^ k := by
    intro k
    cases k with
    | zero => decide
    | succ k =>
      rw [pow_succ]
      show 3 ≠ _
      omega
  obtain ⟨q, hq, hquotient, -⟩ := randomxReciprocal_eq_floor.1 3 (by decide) hpow
  obtain ⟨instr, usage', -, -, hinstr, -, -, -, hmark, -⟩ :=
    randomxReciprocal_eq_floor.2 0x30000004c 0 (Vector.replicate 8 (-1)) (by decide) (by decide)
  refine ⟨⟨q, hq, hquotient.trans (by decide)⟩, instr, usage', hinstr, ?_⟩
  rw [Ne, hmark, not_or, not_exists]
  exact ⟨by decide, hpow⟩

end RandomXSp1
