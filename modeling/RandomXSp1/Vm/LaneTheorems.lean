import RandomXSp1.Vm.LaneArithmetic
import RandomXSp1.Vm.SafetyTheorems

/-!
# The points of an instruction loop

What the lanes hold before any arithmetic: lanes of `a` are at least one and small, masked values
lie in `[2^-255, 2)`, converted integers are zero or at least one. Every point of an instruction
loop is reached from such a machine, after at most 768 dispatches of which at most 765 are not
branches.
-/

namespace RandomXSp1

open Ieee

/-- A property of both lanes of every register of a file. -/
def Lanes (P : U64 → Prop) (file : Vector M128d 4) : Prop :=
  ∀ i : Fin 4, P file[i].low ∧ P file[i].high

section
variable {P Q : U64 → Prop} {file : Vector M128d 4}

lemma Lanes.imp (h : Lanes P file) (hPQ : ∀ x, P x → Q x) : Lanes Q file :=
  fun i => ⟨hPQ _ (h i).1, hPQ _ (h i).2⟩

lemma Lanes.setFin (h : Lanes P file) (i : Fin 4) {x : M128d} (hx : P x.low ∧ P x.high) :
    Lanes P (file.setFin i x) := by
  intro j
  by_cases hij : j = i
  · subst hij
    rw [show (file.setFin j x)[j] = x from Vector.getElem_set_self j.isLt]
    exact hx
  · rw [show (file.setFin i x)[j] = file[j] from
      Vector.getElem_set_ne i.isLt j.isLt (fun h => hij (Fin.ext h).symm)]
    exact h j

end

/-! ## Operands -/

/-- A lane of `a`: positive, at least one and below `2^32`. -/
def SmallPositive (x : U64) : Prop := x.msb = false ∧ binade 1023 ≤ mag x ∧ mag x < binade 1055

/-- A masked lane: positive, at least `2^-255` and below two. -/
def Masked (x : U64) : Prop := x.msb = false ∧ binade 768 ≤ mag x ∧ mag x < binade 1024

/-- What is added to a lane of `f`: a zero, or at least one and below `2^32` in magnitude. -/
def Addend (x : U64) : Prop := mag x = 0 ∨ binade 1023 ≤ mag x ∧ mag x < binade 1055

lemma SmallPositive.addend {x : U64} (h : SmallPositive x) : Addend x := Or.inr h.2

section
variable {x : U64} {e : ℕ}

/-- A word below `2^63` is its own magnitude. -/
lemma mag_of_toNat_lt (h : x.toNat < 2 ^ 63) : x.msb = false ∧ mag x = x.toNat := by
  constructor
  · rw [BitVec.msb_eq_decide]
    exact decide_eq_false (by omega)
  · exact Nat.mod_eq_of_lt h

lemma toNat_shiftLeft_or (e m : U64) (he : e.toNat < 2 ^ 12) (hm : m.toNat < 2 ^ 52) :
    ((e <<< 52) ||| m).toNat / 2 ^ 52 = e.toNat := by
  have hshift : (e <<< 52).toNat = e.toNat <<< 52 := by
    rw [BitVec.toNat_shiftLeft, Nat.shiftLeft_eq]
    omega
  rw [BitVec.toNat_or, hshift, ← Nat.shiftRight_eq_div_pow, Nat.shiftRight_or_distrib,
    Nat.shiftLeft_shiftRight, Nat.shiftRight_eq_div_pow, Nat.div_eq_of_lt hm, Nat.or_zero]

lemma smallPositive_smallPositiveFloatBit (entropy : U64) :
    SmallPositive (Vm.smallPositiveFloatBit entropy) := by
  have hexponent : (((entropy >>> 59) + exponentBias) &&& exponentMask).toNat
      = (entropy >>> 59).toNat + 1023 := by
    have hlt : (entropy >>> 59).toNat < 32 := by
      rw [BitVec.toNat_ushiftRight, Nat.shiftRight_eq_div_pow]
      omega
    rw [BitVec.toNat_and, show exponentMask.toNat = 2 ^ 11 - 1 from rfl,
      Nat.and_two_pow_sub_one_eq_mod, BitVec.toNat_add]
    show ((entropy >>> 59).toNat + 1023) % 2 ^ 64 % 2 ^ 11 = _
    omega
  have hlt : (entropy >>> 59).toNat < 32 := by
    rw [BitVec.toNat_ushiftRight, Nat.shiftRight_eq_div_pow]
    omega
  have hmantissa : (entropy &&& mantissaMask).toNat < 2 ^ 52 :=
    BitVec.toNat_and entropy mantissaMask ▸ lt_of_le_of_lt Nat.and_le_right (by decide)
  have hdiv : (Vm.smallPositiveFloatBit entropy).toNat / 2 ^ 52
      = (entropy >>> 59).toNat + 1023 := by
    rw [← hexponent]
    exact toNat_shiftLeft_or _ _ (by omega) hmantissa
  generalize Vm.smallPositiveFloatBit entropy = bits at hdiv
  obtain ⟨hmsb, hmag⟩ := mag_of_toNat_lt (x := bits) (by omega)
  refine ⟨hmsb, ?_⟩
  rw [hmag]
  unfold binade
  omega

/-- The exponent of a mask is `0x300` with four bits in the second place. -/
lemma toNat_staticExponent (entropy : U64) :
    (Vm.staticExponent entropy).toNat / 2 ^ 60 = 3 := by
  have hfin : ∀ y : Fin 16,
      ((exponentBits ||| (BitVec.ofNat 64 y <<< 4)) <<< 52).toNat / 2 ^ 60 = 3 := by decide
  have hlt : (entropy >>> 60).toNat < 16 := by
    rw [BitVec.toNat_ushiftRight, Nat.shiftRight_eq_div_pow]
    omega
  have hy := hfin ⟨(entropy >>> 60).toNat, hlt⟩
  rw [BitVec.ofNat_toNat, BitVec.setWidth_eq] at hy
  exact hy

lemma masked_or_floatMask (value entropy : U64) :
    Masked ((value &&& dynamicMantissaMask) ||| Vm.floatMask entropy) := by
  have hvalue : (value &&& dynamicMantissaMask).toNat >>> 60 = 0 := by
    rw [Nat.shiftRight_eq_div_pow, BitVec.toNat_and]
    apply Nat.div_eq_of_lt
    exact lt_of_le_of_lt Nat.and_le_right (by decide)
  have hlow : (entropy &&& ((1 <<< 22) - 1)).toNat >>> 60 = 0 := by
    rw [Nat.shiftRight_eq_div_pow, BitVec.toNat_and]
    apply Nat.div_eq_of_lt
    exact lt_of_le_of_lt Nat.and_le_right (by decide)
  have hdiv : ((value &&& dynamicMantissaMask) ||| Vm.floatMask entropy).toNat / 2 ^ 60 = 3 := by
    unfold Vm.floatMask
    dsimp only
    rw [BitVec.toNat_or, BitVec.toNat_or, ← Nat.shiftRight_eq_div_pow, Nat.shiftRight_or_distrib,
      Nat.shiftRight_or_distrib, hvalue, hlow, Nat.zero_or, Nat.zero_or,
      Nat.shiftRight_eq_div_pow, toNat_staticExponent]
  generalize (value &&& dynamicMantissaMask) ||| Vm.floatMask entropy = bits at hdiv
  obtain ⟨hmsb, hmag⟩ := mag_of_toNat_lt (x := bits) (by omega)
  refine ⟨hmsb, ?_⟩
  rw [hmag]
  unfold binade
  omega

/-- The integer `v` with leading bit `e`, in the exponent and the fraction of a pattern. -/
lemma binade_le_of_log2 {v : ℕ} (hv : v ≠ 0) (hle : v ≤ 2 ^ 31) :
    let k := (1022 + Nat.log2 v) * 2 ^ 52 + v * 2 ^ (52 - Nat.log2 v)
    binade 1023 ≤ k ∧ k < binade 1055 := by
  have hlow := Nat.log2_self_le hv
  have hhigh := Nat.lt_log2_self (n := v)
  have hlog : Nat.log2 v ≤ 31 := by
    rw [← Nat.lt_succ_iff, Nat.log2_lt hv]
    omega
  generalize Nat.log2 v = e at *
  have hpow : 2 ^ e * 2 ^ (52 - e) = 2 ^ 52 := by
    rw [← pow_add, Nat.add_sub_cancel' (by omega)]
  have hge : 2 ^ 52 ≤ v * 2 ^ (52 - e) := hpow ▸ Nat.mul_le_mul_right _ hlow
  have hlt : v * 2 ^ (52 - e) < 2 ^ 53 := by
    calc v * 2 ^ (52 - e) < 2 ^ (e + 1) * 2 ^ (52 - e) :=
          Nat.mul_lt_mul_of_pos_right hhigh (by positivity)
      _ = 2 ^ 53 := by rw [pow_succ, mul_right_comm, hpow, ← pow_succ]
  unfold binade
  dsimp only
  omega

/-- A converted integer is a zero, or at least one and at most `2^31` in magnitude. -/
lemma addend_f64OfI32 (n : U32) : Addend (f64OfI32 n) := by
  have hle : n.toInt.natAbs ≤ 2 ^ 31 := by
    have hlow := BitVec.le_toInt n
    have hhigh := BitVec.toInt_lt (x := n)
    omega
  have hpack : f64OfI32 n = pack (decide (n.toInt < 0)) (if n.toInt.natAbs = 0 then 0
      else (1022 + Nat.log2 n.toInt.natAbs) * 2 ^ 52
        + n.toInt.natAbs * 2 ^ (52 - Nat.log2 n.toInt.natAbs)) := by
    simp [f64OfI32, pack]
  rw [hpack]
  generalize n.toInt.natAbs = v at hle
  by_cases hv : v = 0
  · left
    rw [if_pos hv, mag_pack (by decide)]
  · right
    have hbounds := binade_le_of_log2 hv hle
    dsimp only at hbounds
    rw [if_neg hv, mag_pack]
    · exact hbounds
    · unfold binade at hbounds
      omega

lemma addend_lanesOfWord (word : U64) :
    Addend (lanesOfWord word).low ∧ Addend (lanesOfWord word).high :=
  ⟨addend_f64OfI32 _, addend_f64OfI32 _⟩

end

/-! ## Calls -/

/-- The calls of an operation, both lanes of the destination. -/
def Op.calls (m : Machine) : Op → List LaneCall
  | addF dst src =>
    [.add m.mode m.f[dst].low (src.value m).low, .add m.mode m.f[dst].high (src.value m).high]
  | subF dst src =>
    [.sub m.mode m.f[dst].low (src.value m).low, .sub m.mode m.f[dst].high (src.value m).high]
  | mulE dst src => [.mul m.mode m.e[dst].low m.a[src].low, .mul m.mode m.e[dst].high m.a[src].high]
  | divE dst src =>
    [.div m.mode m.e[dst].low (m.divisor src).low, .div m.mode m.e[dst].high (m.divisor src).high]
  | sqrtE dst => [.sqrt m.mode m.e[dst].low, .sqrt m.mode m.e[dst].high]
  | _ => []

/-- The effect of an operation depends on the arithmetic only through its calls. -/
lemma Op.exec_congr {ops ops' : LaneOps} {m : Machine} {op : Op}
    (h : ∀ call ∈ op.calls m, ops call = ops' call) : op.exec ops m = op.exec ops' m := by
  cases op
  case addF | subF | mulE | divE =>
    have hlow := h _ List.mem_cons_self
    have hhigh := h _ (List.mem_cons_of_mem _ List.mem_cons_self)
    exact congrArg (Option.map _) (both_congr hlow hhigh)
  case sqrtE =>
    have hlow := h _ List.mem_cons_self
    have hhigh := h _ (List.mem_cons_of_mem _ List.mem_cons_self)
    exact congrArg (Option.map _) (bothSqrt_congr hlow hhigh)
  all_goals rfl

lemma Machine.dispatch_congr {ops ops' : LaneOps} {program : List Op} {m : Machine}
    (h : ∀ op : Op, ∀ call ∈ op.calls m, ops call = ops' call) :
    dispatch ops program m = dispatch ops' program m := by
  unfold dispatch
  cases m.fetch program with
  | none => rfl
  | some op => simp only [Option.bind_eq_bind, Option.bind_some, Op.exec_congr (h op)]

/-! ## Machines -/

namespace Machine

/-- The lanes of `a` and the masks are the ones an entropy block sets up. -/
structure Configured (m : Machine) : Prop where
  a : Lanes SmallPositive m.a
  maskE : ∀ value, Masked (m.maskE value).low ∧ Masked (m.maskE value).high

lemma configured_initVm (m : Machine) (entropy : Vector U64 16) :
    (m.initVm entropy).Configured := by
  constructor
  · intro i
    fin_cases i <;>
      exact ⟨smallPositive_smallPositiveFloatBit _, smallPositive_smallPositiveFloatBit _⟩
  · intro value
    exact ⟨masked_or_floatMask _ _, masked_or_floatMask _ _⟩

lemma SameSetup.configured {m m' : Machine} (h : m.SameSetup m') (hm : m.Configured) :
    m'.Configured := by
  constructor
  · rw [h.a]
    exact hm.a
  · intro value
    have hmask : m'.maskE value = m.maskE value := by
      unfold maskE Vm.maskRegisterExponentMantissa
      rw [show m'.toVm.eMask = m.toVm.eMask from h.eMask]
    rw [hmask]
    exact hm.maskE value

/-- A machine at the start of an instruction loop. -/
structure AtEntry (m : Machine) : Prop where
  configured : m.Configured
  pc : m.pc = 0
  f : ∀ i : Fin 4, ∃ word, m.f[i] = lanesOfWord word
  e : ∀ i : Fin 4, ∃ value, m.e[i] = m.maskE value

lemma Configured.atEntry {m : Machine} (h : m.Configured) (line0 line1 : Line) :
    (m.enterLoop line0 line1).AtEntry := by
  have hsame : m.SameSetup (m.enterLoop line0 line1) := ⟨rfl, rfl, rfl, rfl, rfl⟩
  refine ⟨hsame.configured h, rfl, ?_, ?_⟩
  · intro i
    exact ⟨m.wordAt line1 (i.castAdd 4), Vector.getElem_ofFn i.isLt⟩
  · intro i
    exact ⟨lanesOfWord (m.wordAt line1 (i.natAdd 4)), Vector.getElem_ofFn i.isLt⟩

section
variable {arith : LaneCall → U64} {program : List Op} (hlength : program.length = programSize)
  (hsound : TargetsSound program) {m u : Machine} {l : List Machine}

include hlength hsound in
/-- The rounds before a point of an instruction loop are among those of the whole loop. -/
lemma length_countP_le_of_rounds (hpc : m.pc = 0) (h : Rounds arith program m l u) :
    l.length ≤ 768 ∧ l.countP (fun u => !u.atBranch program) ≤ 765 := by
  -- the whole loop, which ends; the rounds up to `u` are the first of it
  obtain ⟨m', l', hsteps, hout, hvisits⟩ := exists_rounds arith hlength hsound hpc
  have hinitial := h.isPrefix hsteps (by rw [hout]; exact Bool.false_ne_true)
  constructor
  · exact hinitial.length_le.trans (length_le_of_rounds hlength hsteps hvisits)
  · exact hinitial.sublist.countP_le.trans (countP_not_atBranch_le hlength hsteps hvisits)

end

end Machine

/-! ## Points of a loop -/

namespace Optimized

/-- A property of every state of the instruction loop of the iteration after the given number of
iterations. -/
def AtEveryPoint (ops : LaneOps) (rounds : ℕ) (program : CompactProgram) (start : Vm)
    (count : ℕ) (P : Vm → Prop) : Prop :=
  ∃ state entry addr0 addr1,
    iterations ops rounds program start count = some state ∧
    enterLoop (readRegOffsets start) state.1 state.2 = some (entry, addr0, addr1) ∧
    ∀ l u, Steps inLoop (dispatch ops program) entry l u → P u

section
variable {bytes : List U128} (hbytes : bytes.length = programBytes) {program : CompactProgram}
  (hprogram : CompactProgram.fromBytes bytes = some program) {arith : LaneCall → U64}
include hbytes hprogram

/-- What holds at every point of the loops of machines holds at every point of a loop. -/
theorem atEveryPoint {vm : Vm} (hsize : vm.scratchpad.size = scratchpadWords)
    (hmode : vm.roundingMode < 4) {rounds : ℕ} (hrounds : 768 ≤ rounds) (count : ℕ) {P : Vm → Prop}
    (hP : ∀ m l u, Machine.AtEntry m → Machine.Rounds arith (programOps bytes) m l u → P u.toVm) :
    AtEveryPoint (fun call => some (arith call)) rounds program (vm.initVm program.entropy) count
      P := by
  obtain ⟨-, hentropy, hencodes⟩ := encodes_of_fromBytes hprogram
  obtain ⟨m, rfl⟩ := Machine.exists_toVm hsize hmode
  rw [← Machine.toVm_initVm]
  have hconfigured := m.configured_initVm program.entropy
  have hreg := Machine.readReg_initVm m program.entropy
  generalize Machine.readRegOf program.entropy = readReg at hreg
  generalize m.initVm program.entropy = m at hreg hconfigured
  obtain ⟨state, hstate⟩ := Machine.exists_iterations arith (length_programOps hbytes)
    (targetsSound_decodeOps (instructionWords bytes)) hrounds readReg m count
  have hsetup := Machine.sameSetup_of_iterations hstate
  have hsame : m.SameSetup (state.1.withMemReg m.mx m.ma) :=
    ⟨hsetup.a, hsetup.eMask, hsetup.readReg, hsetup.mem, hsetup.datasetOffset⟩
  rw [AtEveryPoint, readRegOffsets_toVm hreg]
  refine ⟨runState m.mx m.ma state, _, _, _, ?_, enterLoop_toVm _ readReg _, ?_⟩
  · rw [iterations_toVm hencodes _ rounds readReg hreg, hstate]
    rfl
  · -- the compact interpreter passes through the images of the machines
    intro l u hloop
    obtain ⟨l, u, hsteps, rfl⟩ := hloop.exists_of_map (g := Machine.toVm) (fun _ => rfl)
      (fun u _ => dispatch_toVm hencodes (fun call => some (arith call)) u)
    exact hP _ l u ((hsame.configured hconfigured).atEntry _ _) hsteps

end

end Optimized

end RandomXSp1
