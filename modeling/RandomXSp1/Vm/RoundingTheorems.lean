import RandomXSp1.Vm.ELaneTheorems
import RandomXSp1.Vm.FLaneTheorems
import RandomXSp1.Vm.HashTheorems

/-!
# Hashes under correct rounding

Two interpreters whose lane operations agree on the operands that occur return the same digest. The
lanes never leave the operands on which binary64 prescribes the result of a call, so a hash does not
depend on how the lane arithmetic is implemented, as long as it is correctly rounded, and nothing
has to be assumed of the operands that occur.
-/

namespace RandomXSp1

open Ieee
open SoftFp (RoundingMode)

/-! ## Specified calls -/

/-- A finite pattern, or an infinity. -/
def IsNumber (x : U64) : Prop := IsFinite x ∨ IsInf x

/-- The calls with a correctly rounded result. -/
def LaneCall.Specified : LaneCall → Prop
  | add _ a b => IsFinite a ∧ IsFinite b
  | sub _ a b => IsFinite a ∧ IsFinite b
  | mul _ a b => IsNumber a ∧ ¬IsZero a ∧ IsFinite b ∧ ¬IsZero b
  | div _ a b => IsNumber a ∧ IsFinite b ∧ ¬IsZero b
  | sqrt _ a => IsNumber a ∧ a.msb = false

section
variable {arith arith' : LaneCall → U64} (harith : CorrectlyRounded arith)
  (harith' : CorrectlyRounded arith') {call : LaneCall}
include harith harith'

/-- Correct rounding leaves one result. -/
theorem CorrectlyRounded.eq (h : call.Specified) : arith call = arith' call := by
  cases call with
  | add mode a b => rw [harith.add h.1 h.2, harith'.add h.1 h.2]
  | sub mode a b => rw [harith.sub h.1 h.2, harith'.sub h.1 h.2]
  | mul mode a b =>
    obtain ⟨ha, ha0, hb, hb0⟩ := h
    rcases ha with ha | ha
    · rw [harith.mul ha hb, harith'.mul ha hb]
    · rw [harith.mul_inf (Or.inl ha) ha.not_isNaN hb.not_isNaN ha0 hb0,
        harith'.mul_inf (Or.inl ha) ha.not_isNaN hb.not_isNaN ha0 hb0]
  | div mode a b =>
    obtain ⟨ha, hb, hb0⟩ := h
    rcases ha with ha | ha
    · rw [harith.div ha hb hb0, harith'.div ha hb hb0]
    · rw [harith.div_inf ha hb, harith'.div_inf ha hb]
  | sqrt mode a =>
    obtain ⟨ha, hsign⟩ := h
    rcases ha with ha | ha
    · rw [harith.sqrt ha (Or.inl hsign), harith'.sqrt ha (Or.inl hsign)]
    · rw [harith.sqrt_inf ha hsign, harith'.sqrt_inf ha hsign]

omit harith' in
/-- Sums and products do not depend on the order of their operands. -/
lemma CorrectlyRounded.swap_eq (h : call.Specified) : arith call.swap = arith call := by
  cases call with
  | add mode a b =>
    have hsign : sumZeroSign mode.toMode b a = sumZeroSign mode.toMode a b := by
      unfold sumZeroSign
      by_cases hab : a.msb = b.msb
      · rw [if_pos hab, if_pos hab.symm, hab]
      · rw [if_neg hab, if_neg (Ne.symm hab)]
    rw [LaneCall.swap, harith.add h.1 h.2, harith.add h.2 h.1, add_comm, hsign]
  | mul mode a b =>
    obtain ⟨ha, ha0, hb, hb0⟩ := h
    rcases ha with ha | ha
    · rw [LaneCall.swap, harith.mul ha hb, harith.mul hb ha, mul_comm, Bool.xor_comm]
    · rw [LaneCall.swap, harith.mul_inf (Or.inl ha) ha.not_isNaN hb.not_isNaN ha0 hb0,
        harith.mul_inf (Or.inr ha) hb.not_isNaN ha.not_isNaN hb0 ha0, Bool.xor_comm]
  | sub | div | sqrt => rfl

end

/-! ## The calls that occur -/

lemma ELane.isNumber {k : ℕ} {x : U64} (h : ELane k x) : IsNumber x := by
  by_cases hinf : IsInf x
  · exact Or.inr hinf
  · exact Or.inl (h.isFinite hinf)

lemma ELane.not_isZero {k : ℕ} {x : U64} (h : ELane k x) (hk : 1 ≤ k) : ¬IsZero x := by
  have hle := (h.mono hk).le_mag
  unfold binade at hle
  unfold IsZero
  omega

lemma Masked.not_isZero {d : U64} (h : Masked d) : ¬IsZero d := h.eLane.not_isZero (by decide)

namespace Machine

/-- Machines whose lanes are in range. -/
structure InRange (m : Machine) : Prop extends m.Configured where
  e : Lanes (ELane 1) m.e
  f : Lanes IsFinite m.f

lemma InRange.specified {m : Machine} (h : m.InRange) (op : Op) :
    ∀ call ∈ op.calls m, call.Specified := by
  intro call hcall
  cases op
  case addF dst src | subF dst src =>
    have hsrc := addend_value h.toConfigured src
    rcases List.mem_pair.mp hcall with rfl | rfl
    · exact ⟨(h.f dst).1, hsrc.1.isFinite⟩
    · exact ⟨(h.f dst).2, hsrc.2.isFinite⟩
  case mulE dst src =>
    have hmul {x a : U64} (hx : ELane 1 x) (ha : SmallPositive a) :
        (LaneCall.mul m.mode x a).Specified :=
      ⟨hx.isNumber, hx.not_isZero le_rfl, ha.isFinite, ha.not_isZero⟩
    rcases List.mem_pair.mp hcall with rfl | rfl
    · exact hmul (h.e dst).1 (h.a src).1
    · exact hmul (h.e dst).2 (h.a src).2
  case divE dst src =>
    have hdiv {x d : U64} (hx : ELane 1 x) (hd : Masked d) :
        (LaneCall.div m.mode x d).Specified :=
      ⟨hx.isNumber, hd.isNormal.isFinite, hd.not_isZero⟩
    have hmasked := h.maskE (lanesOfWord (m.load src))
    rcases List.mem_pair.mp hcall with rfl | rfl
    · exact hdiv (h.e dst).1 hmasked.1
    · exact hdiv (h.e dst).2 hmasked.2
  case sqrtE dst =>
    rcases List.mem_pair.mp hcall with rfl | rfl
    · exact ⟨(h.e dst).1.isNumber, (h.e dst).1.msb⟩
    · exact ⟨(h.e dst).2.isNumber, (h.e dst).2.msb⟩
  all_goals exact absurd hcall List.not_mem_nil

section
variable {arith : LaneCall → U64} (harith : CorrectlyRounded arith) {ops : LaneOps}
  (hops : ∀ call, call.Specified → ops call = some (arith call))
include harith hops

section
variable {program : List Op} (hlength : program.length = programSize)
  (hsound : TargetsSound program) (readReg : Vector (Fin 8) 4) (rounds : ℕ)
include hlength hsound

omit hops in
lemma inRange_of_atEntry {m u : Machine} {l : List Machine} (hm : m.AtEntry)
    (h : Rounds arith program m l u) : u.InRange := by
  obtain ⟨he, hconfigured⟩ := eLanes_of_atEntry harith hlength hsound hm h
  have hf := (fLanes_of_atEntry harith hlength hsound hm h).1
  exact ⟨hconfigured, he.imp fun _ hx => hx.mono (by decide),
    hf.imp fun _ hx => hx.isFinite (by decide)⟩

lemma iterationOn_of_specified {m : Machine} (hm : m.Configured) (line0 line1 : Line) :
    iterationOn readReg ops rounds program line0 line1 m
      = iterationOn readReg (fun call => some (arith call)) rounds program line0 line1 m := by
  have hloop : whileLoop inLoop (dispatch ops program) rounds (m.enterLoop line0 line1)
      = whileLoop inLoop (dispatch (fun call => some (arith call)) program) rounds
          (m.enterLoop line0 line1) := by
    apply whileLoop_congr
    intro l u hsteps
    have hrange := inRange_of_atEntry harith hlength hsound (hm.atEntry line0 line1) hsteps
    exact dispatch_congr fun op call hcall => hops call (hrange.specified op call hcall)
  unfold iterationOn
  rw [hloop]

lemma iterations_of_specified {m : Machine} (hm : m.Configured) (count : ℕ) :
    iterations readReg ops rounds program m count
      = iterations readReg (fun call => some (arith call)) rounds program m count := by
  apply foldlM_congr_of_invariant (P := fun state : Machine × U32 × U32 => state.1.Configured)
  · intro state _ state' hstate hstep
    exact (sameSetup_of_iteration hstep).configured hstate
  · intro state _ hstate
    unfold iteration
    dsimp only
    rw [iterationOn_of_specified harith hops hlength hsound readReg rounds hstate]
  · exact hm

end

variable (rounds : ℕ) (blake2b : Blake2b)

lemma run_of_specified (m : Machine) (seed : Aes.State) :
    run ops rounds m seed = run (fun call => some (arith call)) rounds m seed := by
  unfold run
  dsimp only
  rw [iterations_of_specified harith hops (length_programOps (length_genProgramAes4rx4 seed))
    (targetsSound_decodeOps (instructionWords _)) _ rounds (m.configured_initVm _)]

/-- A hash calls nothing else. -/
theorem hashFrom_of_specified (m : Machine) (seed : Aes.State) :
    hashFrom ops rounds blake2b m seed
      = hashFrom (fun call => some (arith call)) rounds blake2b m seed := by
  have hreseed : runAndReseed ops rounds blake2b
      = runAndReseed (fun call => some (arith call)) rounds blake2b := by
    funext state
    unfold runAndReseed
    rw [run_of_specified harith hops]
  have hrun : run ops rounds = run (fun call => some (arith call)) rounds := by
    funext m seed
    exact run_of_specified harith hops rounds m seed
  unfold hashFrom runs
  rw [hreseed, hrun]

end

end Machine

/-! ## Hashes -/

lemma Optimized.calculateHashImpl_of_specified {arith : LaneCall → U64}
    (harith : CorrectlyRounded arith) {ops : LaneOps}
    (hops : ∀ call, call.Specified → ops call = some (arith call)) (blake2b : Blake2b)
    (input : List U8) (rounds : ℕ) {vm : Vm} (hsize : vm.scratchpad.size = scratchpadWords) :
    calculateHashImpl ops rounds blake2b vm input
      = calculateHashImpl (fun call => some (arith call)) rounds blake2b vm input := by
  obtain ⟨words, last, hfill⟩ := Machine.exists_fill (hashToM128iArray (blake2b 64 input))
  rw [calculateHashImpl_eq _ rounds blake2b hsize input (hfill _ hsize),
    calculateHashImpl_eq _ rounds blake2b hsize input (hfill _ hsize),
    Machine.hashFrom_of_specified harith hops]

/-- Arithmetics that round correctly agree on the operands that occur. -/
lemma agreeingOps_of_specified {host arith : LaneCall → U64} (hhost : CorrectlyRounded host)
    (harith : CorrectlyRounded arith) (call : LaneCall) (hcall : call.Specified) :
    agreeingOps host arith call = some (arith call) := by
  have hcall' := hhost.eq harith hcall
  exact if_pos ⟨hcall', (hhost.swap_eq hcall).trans hcall'⟩

/-- Where the lane operations agree on the operands that occur, so that restricting them to the
calls on which they agree makes no difference, both interpreters return the same digest and end
in the same state. -/
theorem calculateHash_agree (native nearest : SoftFp.Nearest) (host : LaneCall → U64)
    (blake2b : Blake2b) (input : List U8) {rounds : ℕ} (hrounds : 768 ≤ rounds) {vm : Vm}
    (hsize : vm.scratchpad.size = scratchpadWords)
    (hagree : Optimized.calculateHashImpl (agreeingOps host (Optimized.laneOp native nearest))
        rounds blake2b vm input
      = Optimized.calculateHashImpl (fun call => some (Optimized.laneOp native nearest call))
        rounds blake2b vm input) :
    ∃ digest final,
      Optimized.calculateHashImpl (fun call => some (Optimized.laneOp native nearest call))
        rounds blake2b vm input = some (digest, final) ∧
      Reference.calculateHash host rounds blake2b vm input = some (digest, final) := by
  obtain ⟨words, last, hfill⟩ := Machine.exists_fill (hashToM128iArray (blake2b 64 input))
  obtain ⟨out, hout⟩ := Machine.exists_hashFrom (Optimized.laneOp native nearest) hrounds
    blake2b (Machine.filled vm words) last
  have hoptimized := Optimized.calculateHashImpl_eq
    (fun call => some (Optimized.laneOp native nearest call)) rounds blake2b hsize input
    (hfill _ hsize)
  rw [hout] at hoptimized
  rw [hoptimized, Optimized.calculateHashImpl_eq _ rounds blake2b hsize input (hfill _ hsize)]
    at hagree
  obtain ⟨out', hout', heq⟩ := Option.map_eq_some_iff.mp hagree
  have hreference :=
    Reference.calculateHash_follows (agrees_agreeingOps host _) (hfill _ hsize) hout'
  rw [heq] at hreference
  exact ⟨out.1, out.2.toVm, hoptimized, hreference⟩

/-- The two interpreters agree for arithmetic that rounds by definition, on a state that another
hash left behind. -/
lemma calculateHash_agree_rounding :
    let native := SoftFp.Nearest.ofArith roundingArith
    let vm := { Vm.newVm SeedMemory.noMemory with pc := 7, mx := 5, roundingMode := 3 }
    ∃ digest final,
      Optimized.calculateHashImpl (fun call => some (Optimized.laneOp native native call)) 768
          (fun _ _ => Vector.replicate _ 0) vm [4, 5] = some (digest, final) ∧
      Reference.calculateHash roundingArith 768 (fun _ _ => Vector.replicate _ 0) vm [4, 5]
        = some (digest, final) := by
  intro native vm
  have hsize : vm.scratchpad.size = scratchpadWords := Vm.size_newVm SeedMemory.noMemory
  have hnative := SoftFp.isBinary64_ofArith correctlyRounded_roundingArith
  have hlane := Optimized.correctlyRounded_laneOp hnative hnative
  apply calculateHash_agree native native roundingArith _ [4, 5] le_rfl hsize
  exact Optimized.calculateHashImpl_of_specified hlane
    (agreeingOps_of_specified correctlyRounded_roundingArith hlane) _ [4, 5] 768 hsize

/-- The hash of arithmetic that rounds by definition is the one of both interpreters. -/
lemma exists_roundingHash (blake2b : Blake2b) (input : List U8) {rounds : ℕ}
    (hrounds : 768 ≤ rounds) {vm : Vm} (hsize : vm.scratchpad.size = scratchpadWords) :
    ∃ out,
      Optimized.calculateHashImpl (fun call => some (roundingArith call)) rounds blake2b vm input
        = some out ∧
      (∀ arith, CorrectlyRounded arith →
        Optimized.calculateHashImpl (fun call => some (arith call)) rounds blake2b vm input
          = some out) ∧
      ∀ host, CorrectlyRounded host →
        Reference.calculateHash host rounds blake2b vm input = some out := by
  have hrounding := correctlyRounded_roundingArith
  obtain ⟨words, last, hfill⟩ := Machine.exists_fill (hashToM128iArray (blake2b 64 input))
  obtain ⟨out, hout⟩ := Machine.exists_hashFrom roundingArith hrounds blake2b
    (Machine.filled vm words) last
  have hoptimized := Optimized.calculateHashImpl_eq (fun call => some (roundingArith call)) rounds
    blake2b hsize input (hfill _ hsize)
  rw [hout] at hoptimized
  refine ⟨(out.1, out.2.toVm), hoptimized, ?_, ?_⟩
  · intro arith harith
    rw [Optimized.calculateHashImpl_of_specified hrounding _ blake2b input rounds hsize]
    · exact hoptimized
    · exact fun call hcall => congrArg some (harith.eq hrounding hcall)
  · intro host hhost
    apply Reference.calculateHash_follows (agrees_agreeingOps host roundingArith) (hfill _ hsize)
    rw [Machine.hashFrom_of_specified hrounding (agreeingOps_of_specified hhost hrounding)]
    exact hout

/-- The optimized interpreter on software rounding and the reference interpreter on the host's
return the same digest and end in the same state if the nearest operations of the one and all
operations of the other are binary64, whatever they do with NaNs and invalid operations; and that
state and digest are those of arithmetic that rounds by definition. -/
theorem calculateHash_correctlyRounded (native nearest : SoftFp.Nearest)
    (hnative : native.IsBinary64) (hnearest : nearest.IsBinary64) (host : LaneCall → U64)
    (hhost : CorrectlyRounded host) (blake2b : Blake2b) (input : List U8) {rounds : ℕ}
    (hrounds : 768 ≤ rounds) {vm : Vm} (hsize : vm.scratchpad.size = scratchpadWords) :
    ∃ digest final,
      Optimized.calculateHashImpl (fun call => some (Optimized.laneOp native nearest call))
        rounds blake2b vm input = some (digest, final) ∧
      Reference.calculateHash host rounds blake2b vm input = some (digest, final) ∧
      Optimized.calculateHashImpl (fun call => some (roundingArith call)) rounds blake2b vm input
        = some (digest, final) := by
  obtain ⟨out, hrounding, hoptimized, hreference⟩ :=
    exists_roundingHash blake2b input hrounds hsize
  exact ⟨out.1, out.2, hoptimized _ (Optimized.correctlyRounded_laneOp hnative hnearest),
    hreference host hhost, hrounding⟩

lemma calculateHash_correctlyRounded_rounding :
    ∃ digest final,
      Optimized.calculateHashImpl (fun call => some (Optimized.laneOp (.ofArith roundingArith)
          (.ofArith roundingArith) call)) 768 (fun _ _ => Vector.replicate _ 0)
          (Vm.newVm SeedMemory.noMemory) [1, 2, 3] = some (digest, final) ∧
      Reference.calculateHash roundingArith 768 (fun _ _ => Vector.replicate _ 0)
          (Vm.newVm SeedMemory.noMemory) [1, 2, 3] = some (digest, final) := by
  have hnearest := SoftFp.isBinary64_ofArith correctlyRounded_roundingArith
  obtain ⟨digest, final, hoptimized, hreference, -⟩ := calculateHash_correctlyRounded _ _ hnearest
    hnearest roundingArith correctlyRounded_roundingArith (fun _ _ => Vector.replicate _ 0)
    [1, 2, 3] le_rfl (Vm.size_newVm SeedMemory.noMemory)
  exact ⟨digest, final, hoptimized, hreference⟩

end RandomXSp1
