import RandomXSp1.Vm.Run

/-!
# The instruction loop halts

A branch repeats the region behind its target. The region holds no other branch and no write to
the register of the branch, so each pass adds the same increment to that register; the increment
sets the lowest tested bit and clears the bit below it, and no three sums in a row have all their
tested bits clear. Every instruction is therefore dispatched at most three times.
-/

namespace RandomXSp1

/-! ## Three sums in a row -/

/-- Below `B = 2 * H`, modulo `256 * B`, an increment whose remainder by `B` is below `H` cannot
carry twice. -/
lemma not_three_carries {B H a b i : ℕ} (hB : B = 2 * H) (ha : a < B)
    (hb : (a + i) % (256 * B) = b) (hbB : b < B) (hcB : (b + i) % (256 * B) < B)
    (hi : i < 256 * B) (hlow : i % B < H) (hhigh : B ≤ i) : False := by
  -- the first sum wraps around, as it would be at least `B` otherwise
  have hwrap : 256 * B ≤ a + i := by
    by_contra hlt
    rw [Nat.mod_eq_of_lt (by omega)] at hb
    omega
  have hb' : b = a + i - 256 * B := by
    rw [← hb, Nat.mod_eq_sub_mod hwrap]
    exact Nat.mod_eq_of_lt (by omega)
  have hwrap' : 256 * B ≤ b + i := by
    by_contra hlt
    rw [Nat.mod_eq_of_lt (by omega)] at hcB
    omega
  -- so the increment lies in the last of the 256 blocks
  have hdiv : i / B = 255 := by
    apply Nat.div_eq_of_lt_le <;> omega
  have hsplit := Nat.div_add_mod i B
  rw [hdiv] at hsplit
  omega

section
variable {sum : U64} {bit : ℕ}

lemma toNat_conditionMask_shiftLeft (hbit : bit ≤ 23) :
    (conditionMask <<< bit).toNat = 255 <<< bit := by
  have hle : 255 * 2 ^ bit ≤ 255 * 2 ^ 23 :=
    Nat.mul_le_mul_left 255 (Nat.pow_le_pow_right (by decide) hbit)
  rw [BitVec.toNat_shiftLeft]
  apply Nat.mod_eq_of_lt
  rw [show conditionMask.toNat = 255 from rfl, Nat.shiftLeft_eq]
  omega

/-- The tested bits of a sum on which a branch is taken are clear. -/
lemma mod_lt_of_branchTaken (hbit : bit ≤ 23) (h : branchTaken sum bit) :
    sum.toNat % (256 * 2 ^ bit) < 2 ^ bit := by
  have hand : sum.toNat &&& (255 <<< bit) = 0 := by
    rw [← toNat_conditionMask_shiftLeft hbit, ← BitVec.toNat_and, show sum &&& _ = 0 from h]
    rfl
  have hshift := congrArg (· >>> bit) hand
  simp only [Nat.shiftRight_and_distrib, Nat.shiftLeft_shiftRight, Nat.zero_shiftRight] at hshift
  rw [show 255 = 2 ^ 8 - 1 from rfl, Nat.and_two_pow_sub_one_eq_mod, Nat.shiftRight_eq_div_pow,
    ← Nat.mod_mul_right_div_self] at hshift
  rw [Nat.mul_comm 256]
  exact Nat.lt_of_div_eq_zero (Nat.two_pow_pos bit) hshift

end

section
variable (imm : U32) {bit : ℕ} (hpos : 0 < bit) (hbit : bit ≤ 23)
include hpos hbit

lemma testBit_branchIncrement : (branchIncrement imm bit).toNat.testBit bit = true := by
  have hone : (1#64 <<< (bit - 1)).getLsbD bit = false := by
    simp [show bit < 64 by omega, show ¬bit < bit - 1 by omega, show bit - (bit - 1) ≠ 0 by omega]
  rw [BitVec.testBit_toNat]
  unfold branchIncrement
  rw [BitVec.getLsbD_and, BitVec.getLsbD_or, BitVec.getLsbD_not, hone]
  simp [show bit < 64 by omega]

lemma testBit_branchIncrement_pred :
    (branchIncrement imm bit).toNat.testBit (bit - 1) = false := by
  rw [BitVec.testBit_toNat]
  unfold branchIncrement
  rw [BitVec.getLsbD_and, BitVec.getLsbD_not]
  simp [show bit - 1 < 64 by omega]

/-- The increment reaches the tested bits, and does not fill the bits below them. -/
lemma branchIncrement_bounds :
    (branchIncrement imm bit).toNat % 2 ^ bit < 2 ^ (bit - 1) ∧
      2 ^ bit ≤ (branchIncrement imm bit).toNat % (256 * 2 ^ bit) := by
  have hset := testBit_branchIncrement imm hpos hbit
  have hclear := testBit_branchIncrement_pred imm hpos hbit
  generalize (branchIncrement imm bit).toNat = i at hset hclear
  obtain ⟨below, rfl⟩ : ∃ below, bit = below + 1 := ⟨bit - 1, by omega⟩
  rw [Nat.add_sub_cancel] at hclear ⊢
  rw [Nat.testBit_eq_decide_div_mod_eq, decide_eq_true_eq] at hset
  rw [Nat.testBit_eq_decide_div_mod_eq, decide_eq_false_iff_not] at hclear
  constructor
  · rw [pow_succ, Nat.mod_mul, show i / 2 ^ below % 2 = 0 by omega, Nat.mul_zero, Nat.add_zero]
    exact Nat.mod_lt _ (Nat.two_pow_pos below)
  · rw [Nat.mul_comm, Nat.mod_mul]
    have hodd : 1 ≤ i / 2 ^ (below + 1) % 256 := by omega
    calc 2 ^ (below + 1) = 2 ^ (below + 1) * 1 := (Nat.mul_one _).symm
      _ ≤ 2 ^ (below + 1) * (i / 2 ^ (below + 1) % 256) := Nat.mul_le_mul_left _ hodd
      _ ≤ _ := Nat.le_add_left _ _

/-- Sums modulo the bits a branch tests and those below them. -/
lemma toNat_add_mod (x y : U64) :
    (x + y).toNat % (256 * 2 ^ bit)
      = (x.toNat % (256 * 2 ^ bit) + y.toNat % (256 * 2 ^ bit)) % (256 * 2 ^ bit) := by
  have hdvd : 256 * 2 ^ bit ∣ 2 ^ 64 := by
    rw [show 256 = 2 ^ 8 from rfl, ← pow_add]
    exact pow_dvd_pow 2 (by omega)
  rw [BitVec.toNat_add, Nat.mod_mod_of_dvd _ hdvd, Nat.add_mod]

/-- A branch is not taken three times in a row while nothing else writes its register. -/
lemma not_branchTaken_three (x : U64) (h₁ : branchTaken (x + branchIncrement imm bit) bit)
    (h₂ : branchTaken (x + branchIncrement imm bit + branchIncrement imm bit) bit) :
    ¬branchTaken (x + branchIncrement imm bit + branchIncrement imm bit + branchIncrement imm bit)
      bit := by
  intro h₃
  have hlt₁ := mod_lt_of_branchTaken hbit h₁
  have hlt₂ := mod_lt_of_branchTaken hbit h₂
  have hlt₃ := mod_lt_of_branchTaken hbit h₃
  obtain ⟨hlow, hhigh⟩ := branchIncrement_bounds imm hpos hbit
  rw [toNat_add_mod hpos hbit] at hlt₂ hlt₃
  have hdouble : 2 ^ bit = 2 * 2 ^ (bit - 1) := by
    rw [← pow_succ', Nat.sub_add_cancel hpos]
  have hdvd : 2 ^ bit ∣ 256 * 2 ^ bit := Nat.dvd_mul_left _ _
  rw [← Nat.mod_mod_of_dvd _ hdvd] at hlow
  apply not_three_carries hdouble hlt₁ (toNat_add_mod hpos hbit _ _).symm
  · rw [toNat_add_mod hpos hbit]
    exact hlt₂
  · exact hlt₃
  · exact Nat.mod_lt _ (by positivity)
  · exact hlow
  · exact hhigh

end

/-! ## Passes over a program -/

namespace Machine

/-- How often a list of machines stands at an index. -/
def visits (l : List Machine) (k : ℕ) : ℕ := l.countP fun m => m.pc = (k : ℤ)

lemma visits_append (l l' : List Machine) (k : ℕ) : visits (l ++ l') k = visits l k + visits l' k :=
  List.countP_append

lemma visits_singleton (m : Machine) (k : ℕ) : visits [m] k = if m.pc = (k : ℤ) then 1 else 0 := by
  unfold visits
  rw [List.countP_singleton]
  simp

section
variable {arith : LaneCall → U64} {program : List Op} (hlength : program.length = programSize)

/-- Rounds of the instruction loop, with lane arithmetic that is defined everywhere. -/
abbrev Rounds (arith : LaneCall → U64) (program : List Op) : Machine → List Machine → Machine → Prop :=
  Steps inLoop (dispatch (fun call => some (arith call)) program)

variable (arith) in
/-- The dispatch at an index. -/
lemma exists_dispatch {m : Machine} {p : ℕ} {op : Op} (hpc : m.pc = p) (hop : program[p]? = some op) :
    ∃ m₁, op.exec (fun call => some (arith call)) m = some m₁ ∧
      dispatch (fun call => some (arith call)) program m = some { m₁ with pc := m₁.pc + 1 } := by
  obtain ⟨m₁, hexec⟩ := Op.exists_exec arith op m
  have hfetch : m.fetch program = some op := by
    unfold fetch
    rw [hpc, if_pos (Int.natCast_nonneg p), Int.toNat_natCast, hop]
  exact ⟨m₁, hexec, dispatch_eq_some_iff.mpr ⟨op, m₁, hfetch, hexec, rfl⟩⟩

include hlength

lemma inLoop_of_getElem {m : Machine} {p : ℕ} {op : Op} (hpc : m.pc = p)
    (hop : program[p]? = some op) : m.inLoop := by
  have hlt := (List.getElem?_eq_some_iff.mp hop).1
  rw [hlength] at hlt
  unfold inLoop
  rw [hpc]
  exact decide_eq_true (by exact_mod_cast hlt)

variable (arith) in
/-- One dispatch of an operation that is no branch. -/
lemma exists_rounds_single {m : Machine} {p : ℕ} {op : Op} (hpc : m.pc = p)
    (hop : program[p]? = some op) (hbranch : op.isBranch = false) :
    ∃ m', Rounds arith program m [m] m' ∧ m'.pc = (p + 1 : ℕ) ∧
      ∀ d, d ∉ op.writes → m'.r[d] = m.r[d] := by
  obtain ⟨m₁, hexec, hdispatch⟩ := exists_dispatch arith hpc hop
  refine ⟨_, .single (inLoop_of_getElem hlength hpc hop) hdispatch, ?_, ?_⟩
  · show m₁.pc + 1 = _
    rw [Op.pc_of_exec hbranch hexec, hpc]
    rfl
  · intro d hd
    show m₁.r[d] = m.r[d]
    exact Op.r_of_exec hd hexec

variable (arith) in
/-- A stretch of operations that leave a register alone. -/
lemma exists_rounds_stretch {d : Fin 8} {p n : ℕ} (hend : p + n ≤ programSize)
    (hleaves : ∀ k op, program[k]? = some op → p ≤ k → k < p + n → op.Leaves d) {m : Machine}
    (hpc : m.pc = p) :
    ∃ m' l, Rounds arith program m l m' ∧ m'.pc = (p + n : ℕ) ∧ m'.r[d] = m.r[d] ∧
      ∀ k, visits l k ≤ if p ≤ k ∧ k < p + n then 1 else 0 := by
  induction n generalizing p m with
  | zero => exact ⟨m, [], .refl m, hpc, rfl, fun k => Nat.zero_le _⟩
  | succ n ih =>
    have hlt : p < program.length := by omega
    have hop : program[p]? = some program[p] := List.getElem?_eq_getElem hlt
    have hleave := hleaves p program[p] hop le_rfl (by omega)
    obtain ⟨m₁, hsteps, hpc₁, hregs⟩ := exists_rounds_single arith hlength hpc hop hleave.1
    obtain ⟨m', l, hrest, hpc', hr, hvisits⟩ := ih (p := p + 1) (by omega)
      (fun k op hk hpk hkn => hleaves k op hk (by omega) (by omega)) hpc₁
    refine ⟨m', [m] ++ l, hsteps.trans hrest, ?_, hr.trans (hregs d hleave.2), ?_⟩
    · rw [hpc']
      congr 1
      omega
    · intro k
      have hk := hvisits k
      rw [visits_append, visits_singleton, hpc]
      split_ifs at hk ⊢ <;> omega

section
variable {i p : ℕ} {d : Fin 8} {imm : U32} {condition : Fin 16} {target : ℤ}
  (hbranch : program[i]? = some (.branch d imm condition target)) (hp : (p : ℤ) = target + 1)
  (hpi : p ≤ i)
  (hleaves : ∀ (k : ℕ) (op : Op), program[k]? = some op → target < k → k < i → op.Leaves d)
include hbranch hp hpi hleaves

variable (arith) in
/-- One pass over the region that a branch repeats. -/
lemma exists_rounds_pass {m : Machine} (hpc : m.pc = p) :
    ∃ m' l, Rounds arith program m l m' ∧
      m'.r[d] = m.r[d] + branchIncrement imm (branchBit condition) ∧
      (branchTaken m'.r[d] (branchBit condition) ∧ m'.pc = p
        ∨ ¬branchTaken m'.r[d] (branchBit condition) ∧ m'.pc = (i + 1 : ℕ)) ∧
      ∀ k, visits l k ≤ if p ≤ k ∧ k ≤ i then 1 else 0 := by
  have hlt := (List.getElem?_eq_some_iff.mp hbranch).1
  obtain ⟨m₁, l, hsteps, hpc₁, hr, hvisits⟩ := exists_rounds_stretch arith hlength
    (p := p) (n := i - p) (d := d) (by omega)
    (fun k op hk hpk hki => hleaves k op hk (by omega) (by omega)) hpc
  rw [Nat.add_sub_cancel' hpi] at hpc₁ hvisits
  obtain ⟨m₂, hexec, hdispatch⟩ := exists_dispatch arith hpc₁ hbranch
  have hin := inLoop_of_getElem hlength hpc₁ hbranch
  refine ⟨_, l ++ [m₁], hsteps.trans (.single hin hdispatch), ?_⟩
  have hcount : ∀ k, visits (l ++ [m₁]) k ≤ if p ≤ k ∧ k ≤ i then 1 else 0 := by
    intro k
    have hk := hvisits k
    rw [visits_append, visits_singleton, hpc₁]
    split_ifs at hk ⊢ <;> omega
  -- the branch adds to its register, and leads back or out
  rw [← hr]
  rcases Op.exec_branch_eq_some hexec with ⟨htaken, rfl⟩ | ⟨htaken, rfl⟩
  · have hsum : (m₁.setR d (m₁.r[d] + branchIncrement imm (branchBit condition))).r[d] = _ :=
      Machine.getElem_setR_self d _
    refine ⟨hsum, Or.inl ⟨?_, hp.symm⟩, hcount⟩
    rw [← hsum] at htaken
    exact htaken
  · have hsum : (m₁.setR d (m₁.r[d] + branchIncrement imm (branchBit condition))).r[d] = _ :=
      Machine.getElem_setR_self d _
    refine ⟨hsum, Or.inr ⟨?_, ?_⟩, hcount⟩
    · rw [← hsum] at htaken
      exact htaken
    · show m₁.pc + 1 = _
      rw [hpc₁]
      rfl

variable (arith) in
/-- The region that a branch repeats, left after at most three passes. -/
lemma exists_rounds_region {m : Machine} (hpc : m.pc = p) :
    ∃ m' l, Rounds arith program m l m' ∧ m'.pc = (i + 1 : ℕ) ∧
      ∀ k, visits l k ≤ if p ≤ k ∧ k ≤ i then 3 else 0 := by
  have hbit : 0 < branchBit condition ∧ branchBit condition ≤ 23 := by
    unfold branchBit
    omega
  have pass {m : Machine} (hpc : m.pc = p) :=
    exists_rounds_pass arith hlength hbranch hp hpi hleaves hpc
  obtain ⟨m₁, l₁, hsteps₁, hr₁, hcase₁, hvisits₁⟩ := pass hpc
  rcases hcase₁ with ⟨htaken₁, hpc₁⟩ | ⟨-, hpc₁⟩
  · obtain ⟨m₂, l₂, hsteps₂, hr₂, hcase₂, hvisits₂⟩ := pass hpc₁
    rcases hcase₂ with ⟨htaken₂, hpc₂⟩ | ⟨-, hpc₂⟩
    · obtain ⟨m₃, l₃, hsteps₃, hr₃, hcase₃, hvisits₃⟩ := pass hpc₂
      -- each pass adds the immediate once, and the branch is not taken three times on end
      rcases hcase₃ with ⟨htaken₃, -⟩ | ⟨-, hpc₃⟩
      · rw [hr₃] at htaken₃
        rw [hr₂] at htaken₂ htaken₃
        rw [hr₁] at htaken₁ htaken₂ htaken₃
        exact absurd htaken₃ (not_branchTaken_three imm hbit.1 hbit.2 _ htaken₁ htaken₂)
      · refine ⟨m₃, l₁ ++ (l₂ ++ l₃), hsteps₁.trans (hsteps₂.trans hsteps₃), hpc₃, ?_⟩
        intro k
        have hk₁ := hvisits₁ k
        have hk₂ := hvisits₂ k
        have hk₃ := hvisits₃ k
        rw [visits_append, visits_append]
        split_ifs at hk₁ hk₂ hk₃ ⊢ <;> omega
    · refine ⟨m₂, l₁ ++ l₂, hsteps₁.trans hsteps₂, hpc₂, ?_⟩
      intro k
      have hk₁ := hvisits₁ k
      have hk₂ := hvisits₂ k
      rw [visits_append]
      split_ifs at hk₁ hk₂ ⊢ <;> omega
  · refine ⟨m₁, l₁, hsteps₁, hpc₁, ?_⟩
    intro k
    have hk₁ := hvisits₁ k
    split_ifs at hk₁ ⊢ <;> omega

end

/-! ## All of a program -/

/-- No branch behind an index repeats what stands before it. -/
def Outside (program : List Op) (q : ℕ) : Prop :=
  ∀ (i : ℕ) (d : Fin 8) (imm : U32) (condition : Fin 16) (target : ℤ),
    program[i]? = some (.branch d imm condition target) → q ≤ i → q ≤ target + 1

/-- How often an index of the program is dispatched at most. -/
def visitLimit (program : List Op) : ℕ := if program.any Op.isBranch then 3 else 1

omit hlength in
lemma visitLimit_le (program : List Op) : 1 ≤ visitLimit program ∧ visitLimit program ≤ 3 := by
  unfold visitLimit
  split <;> decide

omit hlength in
lemma visitLimit_of_branch {i : ℕ} {op : Op} (hop : program[i]? = some op)
    (hbranch : op.isBranch = true) : visitLimit program = 3 :=
  if_pos (List.any_eq_true.mpr ⟨op, List.mem_of_getElem? hop, hbranch⟩)

omit hlength in
/-- The regions of different branches are disjoint. -/
lemma outside_of_branch (hsound : TargetsSound program) {i : ℕ} {op : Op}
    (hop : program[i]? = some op) (hbranch : op.isBranch = true) : Outside program (i + 1) := by
  intro j d imm condition target hj hij
  obtain ⟨-, -, hbetween⟩ := hsound j d imm condition target hj
  by_contra hlt
  have hnone := (hbetween i op hop (by omega) (by omega)).1
  rw [hbranch] at hnone
  exact absurd hnone (by decide)

variable (arith) in
/-- The rounds from an index that no branch behind it leads back across. -/
lemma exists_rounds_from (hsound : TargetsSound program) {q n : ℕ} (hq : q + n = programSize)
    (houtside : Outside program q) {m : Machine} (hpc : m.pc = q) :
    ∃ m' l, Rounds arith program m l m' ∧ m'.pc = (programSize : ℕ) ∧
      ∀ k, visits l k ≤ if q ≤ k then visitLimit program else 0 := by
  induction n using Nat.strong_induction_on generalizing q m with
  | _ n ih =>
  by_cases hend : n = 0
  · refine ⟨m, [], .refl m, ?_, fun k => Nat.zero_le _⟩
    rw [hpc, ← hq, hend]
    rfl
  have hlimit := visitLimit_le program
  by_cases hregion : ∃ (i : ℕ) (d : Fin 8) (imm : U32) (condition : Fin 16) (target : ℤ),
      program[i]? = some (.branch d imm condition target) ∧ q ≤ i ∧ (q : ℤ) = target + 1
  · -- the region of a branch starts here
    obtain ⟨i, d, imm, condition, target, hbranch, hqi, htarget⟩ := hregion
    have hlt := (List.getElem?_eq_some_iff.mp hbranch).1
    obtain ⟨-, -, hbetween⟩ := hsound i d imm condition target hbranch
    obtain ⟨m₁, l₁, hsteps₁, hpc₁, hvisits₁⟩ :=
      exists_rounds_region arith hlength hbranch htarget hqi hbetween hpc
    obtain ⟨m', l, hsteps, hpc', hvisits⟩ := ih (programSize - (i + 1)) (by omega) (by omega)
      (outside_of_branch hsound hbranch rfl) hpc₁
    refine ⟨m', l₁ ++ l, hsteps₁.trans hsteps, hpc', ?_⟩
    intro k
    have hk₁ := hvisits₁ k
    have hk := hvisits k
    rw [visits_append]
    rw [visitLimit_of_branch hbranch rfl] at hk ⊢
    split_ifs at hk₁ hk ⊢ <;> omega
  · -- a single operation stands here, as the region of a branch would start no later than itself
    have hlt : q < program.length := by omega
    have hop : program[q]? = some program[q] := List.getElem?_eq_getElem hlt
    have hnone : program[q].isBranch = false := by
      by_contra hbranch
      generalize program[q] = op at hop hbranch
      cases op
      case branch d imm condition target =>
        have hlow := houtside q d imm condition target hop le_rfl
        obtain ⟨-, hhigh, -⟩ := hsound q d imm condition target hop
        exact hregion ⟨q, d, imm, condition, target, hop, le_rfl, by omega⟩
      all_goals exact hbranch rfl
    obtain ⟨m₁, hsteps₁, hpc₁, -⟩ := exists_rounds_single arith hlength hpc hop hnone
    have houtside₁ : Outside program (q + 1) := by
      intro i d imm condition target hi hqi
      have hlow := houtside i d imm condition target hi (by omega)
      by_contra hlt
      exact hregion ⟨i, d, imm, condition, target, hi, by omega, by push_cast at hlt; omega⟩
    obtain ⟨m', l, hsteps, hpc', hvisits⟩ := ih (n - 1) (by omega) (by omega) houtside₁ hpc₁
    refine ⟨m', [m] ++ l, hsteps₁.trans hsteps, hpc', ?_⟩
    intro k
    have hk := hvisits k
    rw [visits_append, visits_singleton, hpc]
    split_ifs at hk ⊢ <;> omega

variable (arith) in
/-- The instruction loop from the start of a program to its end. -/
lemma exists_rounds (hsound : TargetsSound program) {m : Machine} (hpc : m.pc = 0) :
    ∃ m' l, Rounds arith program m l m' ∧ m'.inLoop = false ∧
      ∀ k, visits l k ≤ visitLimit program := by
  have houtside : Outside program 0 := by
    intro i d imm condition target hi _
    have hlow := (hsound i d imm condition target hi).1
    push_cast
    omega
  obtain ⟨m', l, hsteps, hpc', hvisits⟩ := exists_rounds_from arith hlength hsound
    (Nat.zero_add programSize) houtside hpc
  refine ⟨m', l, hsteps, ?_, ?_⟩
  · unfold inLoop
    rw [hpc']
    exact decide_eq_false (lt_irrefl _)
  · intro k
    have hk := hvisits k
    rwa [if_pos (Nat.zero_le k)] at hk

/-- Whether the operation at the counter is a branch. -/
def atBranch (program : List Op) (m : Machine) : Bool := (m.fetch program).any Op.isBranch

section
variable {m m' : Machine} {l : List Machine} (hsteps : Rounds arith program m l m')
  (hvisits : ∀ k, visits l k ≤ visitLimit program)
include hsteps

/-- The counters of the machines that were dispatched. -/
lemma pc_mem_of_rounds {u : Machine} (hu : u ∈ l) :
    u.pc ∈ Finset.Ico (0 : ℤ) programSize ∧ ∃ op, program[u.pc.toNat]? = some op := by
  obtain ⟨-, u', hu'⟩ := hsteps.of_mem hu
  obtain ⟨op, -, hfetch, -, -⟩ := dispatch_eq_some_iff.mp hu'
  unfold fetch at hfetch
  split at hfetch
  · have hlt := (List.getElem?_eq_some_iff.mp hfetch).1
    exact ⟨Finset.mem_Ico.mpr ⟨‹_›, by omega⟩, op, hfetch⟩
  · exact absurd hfetch nofun

include hvisits

omit hlength hsteps in
lemma countP_pc_le {k : ℤ} (hk : 0 ≤ k) :
    l.countP (fun u => u.pc = k) ≤ visitLimit program := by
  have hcount := hvisits k.toNat
  unfold visits at hcount
  rwa [Int.toNat_of_nonneg hk] at hcount

/-- A program performs at most 768 dispatches. -/
lemma length_le_of_rounds : l.length ≤ 768 := by
  have hle := countP_le_mul_card (p := fun _ => true) (f := Machine.pc)
    (S := Finset.Ico (0 : ℤ) programSize)
    (fun u hu _ => (pc_mem_of_rounds hlength hsteps hu).1)
    (fun k hk => countP_pc_le hvisits (Finset.mem_Ico.mp hk).1)
  rw [List.countP_true, Int.card_Ico] at hle
  have hlimit := (visitLimit_le program).2
  calc l.length ≤ visitLimit program * 256 := hle
    _ ≤ 3 * 256 := Nat.mul_le_mul_right _ hlimit

/-- At most 765 of the dispatches are not branches: a program that repeats anything holds a
branch. -/
lemma countP_not_atBranch_le : l.countP (fun u => !u.atBranch program) ≤ 765 := by
  by_cases hany : program.any Op.isBranch
  · obtain ⟨op, hmem, hbranch⟩ := List.any_eq_true.mp hany
    obtain ⟨i, hi, rfl⟩ := List.mem_iff_getElem.mp hmem
    have hle := countP_le_mul_card (p := fun u => !u.atBranch program) (f := Machine.pc)
      (S := (Finset.Ico (0 : ℤ) programSize).erase i)
      (fun u hu hnot => by
        refine Finset.mem_erase.mpr ⟨?_, (pc_mem_of_rounds hlength hsteps hu).1⟩
        intro hpc
        unfold atBranch fetch at hnot
        rw [hpc, if_pos (Int.natCast_nonneg i), Int.toNat_natCast, List.getElem?_eq_getElem hi,
          Option.any_some, hbranch] at hnot
        exact absurd hnot (by decide))
      (fun k hk => countP_pc_le hvisits
        (Finset.mem_Ico.mp (Finset.mem_of_mem_erase hk)).1)
    have hmem : (i : ℤ) ∈ Finset.Ico (0 : ℤ) programSize :=
      Finset.mem_Ico.mpr ⟨Int.natCast_nonneg i, by omega⟩
    have hcard : ((Finset.Ico (0 : ℤ) programSize).erase i).card = 255 := by
      rw [Finset.card_erase_of_mem hmem, Int.card_Ico]
      rfl
    rw [hcard] at hle
    have hlimit := (visitLimit_le program).2
    calc _ ≤ visitLimit program * 255 := hle
      _ ≤ 3 * 255 := Nat.mul_le_mul_right _ hlimit
  · have hle := countP_le_mul_card (p := fun u => !u.atBranch program) (f := Machine.pc)
      (S := Finset.Ico (0 : ℤ) programSize)
      (fun u hu _ => (pc_mem_of_rounds hlength hsteps hu).1)
      (fun k hk => countP_pc_le hvisits (Finset.mem_Ico.mp hk).1)
    rw [Int.card_Ico, show visitLimit program = 1 from if_neg hany] at hle
    calc _ ≤ 1 * 256 := hle
      _ ≤ 765 := by decide

end

end

end Machine

end RandomXSp1
