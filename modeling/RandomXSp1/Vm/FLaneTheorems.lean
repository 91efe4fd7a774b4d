import RandomXSp1.Vm.LaneTheorems

/-!
# The lanes of `f`

Scaling a lane of `f` exchanges the exponents of a group of sixteen from its two ends, so a lane
can move by fifteen binades at once. But beyond `2^97` an addition moves a lane by at most one
pattern, and a lane passes from one group to the next only at the top of the group: it has to cross
the boundaries between the pairs of exponents of the group one after the other. `drift` counts these
crossings. It grows by at most one with every dispatch, so no lane overflows in 768 of them.

On the other side, a sum below one half is a cancellation of multiples of `2^-53`.
-/

namespace RandomXSp1

open Ieee
open SoftFp (RoundingMode)

/-! ## Groups of sixteen binades -/

/-- The crossings within a group, from exponent `j` of the group with fraction `f`. The exponents
`j` and `15 - j` exchange places. -/
def crossings (j f : ℕ) : ℕ :=
  let pair := min j (15 - j)
  if pair % 2 = 0 then min (pair + f) (15 - pair) else min (15 - pair) (pair + (2 ^ 52 - 1 - f))

/-- The crossings of a magnitude. -/
def drift (k : ℕ) : ℕ := 16 * (k / 2 ^ 52 / 16) + crossings (k / 2 ^ 52 % 16) (k % 2 ^ 52)

section
variable {j f k : ℕ}

lemma crossings_le (j f : ℕ) : crossings j f ≤ 15 := by
  unfold crossings
  dsimp only
  split_ifs <;> omega

/-- Both exponents of a pair count alike. -/
lemma crossings_reverse (hj : j < 16) : crossings (15 - j) f = crossings j f := by
  unfold crossings
  rw [Nat.sub_sub_self (by omega), min_comm]

lemma crossings_succ_fraction (hf : f + 1 < 2 ^ 52) :
    crossings j (f + 1) ≤ crossings j f + 1 ∧ crossings j f ≤ crossings j (f + 1) + 1 := by
  unfold crossings
  dsimp only
  split_ifs <;> omega

lemma crossings_succ_exponent (hj : j + 1 < 16) :
    crossings (j + 1) 0 ≤ crossings j (2 ^ 52 - 1) + 1 ∧
      crossings j (2 ^ 52 - 1) ≤ crossings (j + 1) 0 + 1 := by
  unfold crossings
  dsimp only
  split_ifs <;> omega

lemma drift_le_group (k : ℕ) : drift k ≤ 16 * (k / 2 ^ 52 / 16) + 15 :=
  Nat.add_le_add_left (crossings_le _ _) _

/-- The next magnitude differs by at most one crossing. -/
lemma drift_succ (k : ℕ) : drift (k + 1) ≤ drift k + 1 ∧ drift k ≤ drift (k + 1) + 1 := by
  unfold drift
  have hmod := Nat.mod_lt k (Nat.two_pow_pos 52)
  by_cases hcarry : k % 2 ^ 52 + 1 < 2 ^ 52
  · have hdiv : (k + 1) / 2 ^ 52 = k / 2 ^ 52 := by omega
    have hrest : (k + 1) % 2 ^ 52 = k % 2 ^ 52 + 1 := by omega
    have hstep := crossings_succ_fraction (j := k / 2 ^ 52 % 16) hcarry
    rw [hdiv, hrest]
    omega
  · have hdiv : (k + 1) / 2 ^ 52 = k / 2 ^ 52 + 1 := by omega
    have hrest : (k + 1) % 2 ^ 52 = 0 := by omega
    have hlast : k % 2 ^ 52 = 2 ^ 52 - 1 := by omega
    rw [hdiv, hrest, hlast]
    generalize k / 2 ^ 52 = e
    by_cases hj : e % 16 + 1 < 16
    · have hstep := crossings_succ_exponent hj
      rw [show (e + 1) / 16 = e / 16 by omega, show (e + 1) % 16 = e % 16 + 1 by omega]
      omega
    · -- the only way to the next group
      rw [show (e + 1) / 16 = e / 16 + 1 by omega, show (e + 1) % 16 = 0 by omega,
        show e % 16 = 15 by omega, show crossings 0 0 = 0 from rfl,
        show crossings 15 (2 ^ 52 - 1) = 15 by decide]
      omega

lemma drift_le_of_near {k' : ℕ} (hlow : k ≤ k' + 1) (hhigh : k' ≤ k + 1) :
    drift k' ≤ drift k + 1 := by
  rcases (show k' = k ∨ k' = k + 1 ∨ k = k' + 1 by omega) with rfl | rfl | rfl
  · exact Nat.le_succ _
  · exact (drift_succ k).1
  · exact (drift_succ k').2

end

/-! ## Scaling -/

/-- Scaling keeps the fraction and exchanges the exponents of a group. -/
lemma mag_xor_scaleMask (x : U64) :
    mag (x ^^^ 0x80f0000000000000) / 2 ^ 52 / 16 = mag x / 2 ^ 52 / 16 ∧
      mag (x ^^^ 0x80f0000000000000) / 2 ^ 52 % 16 = 15 - mag x / 2 ^ 52 % 16 ∧
      mag (x ^^^ 0x80f0000000000000) % 2 ^ 52 = mag x % 2 ^ 52 := by
  have hmag : mag (x ^^^ 0x80f0000000000000) = mag x ^^^ 15 * 2 ^ 52 := by
    unfold mag
    rw [BitVec.toNat_xor, Nat.xor_mod_two_pow]
    rfl
  have hdiv : mag (x ^^^ 0x80f0000000000000) / 2 ^ 52 = mag x / 2 ^ 52 ^^^ 15 := by
    rw [hmag, Nat.xor_div_two_pow]
    rfl
  have hmod : mag (x ^^^ 0x80f0000000000000) % 2 ^ 52 = mag x % 2 ^ 52 := by
    rw [hmag, Nat.xor_mod_two_pow]
    exact Nat.xor_zero _
  refine ⟨?_, ?_, hmod⟩
  · rw [hdiv, show (16 : ℕ) = 2 ^ 4 from rfl, Nat.xor_div_two_pow]
    exact Nat.xor_zero _
  · have hfin : ∀ j : Fin 16, (j : ℕ) ^^^ 15 = 15 - j := by decide
    have hmod16 := hfin ⟨mag x / 2 ^ 52 % 16, Nat.mod_lt _ (by decide)⟩
    rw [hdiv, show (16 : ℕ) = 2 ^ 4 from rfl, Nat.xor_mod_two_pow]
    exact hmod16

lemma drift_xor_scaleMask (x : U64) : drift (mag (x ^^^ 0x80f0000000000000)) = drift (mag x) := by
  obtain ⟨hgroup, hexponent, hfraction⟩ := mag_xor_scaleMask x
  unfold drift
  rw [hgroup, hexponent, hfraction, crossings_reverse (Nat.mod_lt _ (by decide))]

/-! ## One operation -/

/-- A zero or a normal number. -/
def ZeroOrNormal (x : U64) : Prop := IsZero x ∨ IsNormal x

instance : DecidablePred ZeroOrNormal :=
  fun x => inferInstanceAs (Decidable (IsZero x ∨ IsNormal x))

/-- A lane of `f` after `n` dispatches: a zero, the image of a zero under scaling, or a normal
number far above the subnormal ones; and its drift. -/
structure FLane (n : ℕ) (x : U64) : Prop where
  low : mag x = 0 ∨ mag x = binade 15 ∨ binade 960 ≤ mag x
  drift_le : drift (mag x) ≤ 1120 + n

section
variable {x s r : U64} {m : Mode} {zs : Bool} {n : ℕ}

lemma Addend.fLane (h : Addend s) : FLane 0 s := by
  have hdrift := drift_le_group (mag s)
  unfold Addend at h
  constructor <;> unfold binade at * <;> omega

lemma Addend.isFinite (h : Addend s) : IsFinite s := by
  unfold Addend binade at h
  unfold IsFinite infMag
  omega

lemma Addend.negate (h : Addend s) : Addend (negate s) := by
  unfold Addend
  rw [mag_negate]
  exact h

lemma FLane.mono {n' : ℕ} (h : FLane n x) (hn : n ≤ n') : FLane n' x :=
  ⟨h.low, h.drift_le.trans (Nat.add_le_add_left hn _)⟩

lemma FLane.succ (h : FLane n x) : FLane (n + 1) x := h.mono (Nat.le_succ n)

/-- Within 900 dispatches a lane does not come near infinity. -/
lemma FLane.mag_succ_lt (h : FLane n x) (hn : n ≤ 900) : mag x + 1 < infMag := by
  have hdrift := h.drift_le
  unfold drift at hdrift
  unfold infMag
  omega

lemma FLane.isFinite (h : FLane n x) (hn : n ≤ 900) : IsFinite x :=
  (Nat.lt_succ_self _).trans (h.mag_succ_lt hn)

lemma FLane.zeroOrNormal (h : FLane n x) (hn : n ≤ 900) : ZeroOrNormal x := by
  have hfin := h.isFinite hn
  rcases h.low with hzero | hscaled | hlow
  · exact Or.inl hzero
  · refine Or.inr ⟨?_, hfin⟩
    rw [hscaled]
    decide
  · refine Or.inr ⟨?_, hfin⟩
    exact le_trans (by decide) hlow

lemma FLane.scale (h : FLane n x) : FLane n (x ^^^ 0x80f0000000000000) := by
  obtain ⟨hgroup, hexponent, hfraction⟩ := mag_xor_scaleMask x
  refine ⟨?_, ?_⟩
  · have hlow := h.low
    unfold binade at *
    omega
  · rw [drift_xor_scaleMask]
    exact h.drift_le

/-! ### Sums -/

lemma abs_value_lt_of_mag_lt (hs : mag s < binade 1055) : |value s| < (2 : ℝ) ^ (32 : ℤ) := by
  have hlt := abs_value_lt_gridVal hs
  rwa [gridVal_binade_succ 1054] at hlt

section
variable (hr : Rounds m (value x + value s) zs r) (hs : mag s < binade 1055)
include hr hs

/-- An addition moves a lane up by at most one pattern, or not beyond `2^97`. -/
lemma mag_sum_le (hx : max (mag x) (binade 1120) + 1 < infMag) :
    mag r ≤ max (mag x) (binade 1120) + 1 := by
  have hlt := abs_value_lt_of_mag_lt hs
  apply hr.mag_le hx
  have hulp : (2 : ℝ) ^ (-1074 + (1119 : ℕ) : ℤ)
      ≤ gridUlp 52 (-1074) (max (mag x) (binade 1120)) := zpow_le_gridUlp (le_max_right _ _)
  rw [show (-1074 + (1119 : ℕ) : ℤ) = 45 by norm_num] at hulp
  have hpow : (2 : ℝ) ^ (32 : ℤ) ≤ 2 ^ (45 : ℤ) := zpow_le_zpow_right₀ (by norm_num) (by norm_num)
  have habs := abs_value_le_gridVal (le_max_left (mag x) (binade 1120))
  rw [gridVal_succ]
  calc |value x + value s| ≤ |value x| + |value s| := abs_add_le _ _
    _ ≤ _ := by linarith

/-- Beyond `2^97` an addition moves a lane down by at most one pattern. -/
lemma le_mag_sum (hx : binade 1120 ≤ mag x) (hfin : IsFinite x) : mag x ≤ mag r + 1 := by
  obtain ⟨k, hk⟩ : ∃ k, mag x = k + 1 := ⟨mag x - 1, by unfold binade at hx; omega⟩
  have hlt := abs_value_lt_of_mag_lt hs
  have hulp : (2 : ℝ) ^ (-1074 + (1118 : ℕ) : ℤ) ≤ gridUlp 52 (-1074) k :=
    zpow_le_gridUlp (by unfold binade at hx; omega)
  rw [show (-1074 + (1118 : ℕ) : ℤ) = 44 by norm_num] at hulp
  have hpow : (2 : ℝ) ^ (32 : ℤ) ≤ 2 ^ (44 : ℤ) := zpow_le_zpow_right₀ (by norm_num) (by norm_num)
  have habs : |value x| = gridVal 52 (-1074) k + gridUlp 52 (-1074) k := by
    rw [abs_value, hk, gridVal_succ]
  rw [hk]
  apply Nat.succ_le_succ
  unfold IsFinite at hfin
  apply hr.le_mag (by omega)
  have hsub := abs_sub_abs_le_abs_sub (value x) (-value s)
  rw [abs_neg, sub_neg_eq_add] at hsub
  linarith

omit hs in
/-- A sum below one half is a cancellation of multiples of `2^-53`. -/
lemma low_sum (hs : binade 1023 ≤ mag s) : mag r = 0 ∨ binade 960 ≤ mag r := by
  by_cases hhalf : mag x < binade 1022
  · right
    refine le_trans (show binade 960 ≤ binade 1022 by decide) (hr.le_mag (by decide) ?_)
    have hx := abs_value_lt_gridVal hhalf
    have hs' := gridVal_le_abs_value hs
    rw [gridVal_binade_succ 1021] at hx ⊢
    rw [gridVal_binade_succ 1022] at hs'
    have hsub := abs_sub_abs_le_abs_sub (value s) (-value x)
    rw [abs_neg, sub_neg_eq_add, add_comm] at hsub
    norm_num at hx hs' ⊢
    linarith
  · obtain ⟨z, hz⟩ := exists_value_eq_mul (e := 1021) (not_lt.mp hhalf)
    obtain ⟨w, hw⟩ := exists_value_eq_mul (e := 1021) (le_trans (by decide) hs)
    have hsum : value x + value s = (z + w : ℤ) * 2 ^ (-53 : ℤ) := by
      rw [hz, hw]
      push_cast
      ring_nf
    rw [hsum] at hr
    by_cases hcancel : z + w = 0
    · left
      rw [hcancel] at hr
      apply Nat.le_zero.mp
      exact hr.mag_le (by decide) (by simp)
    · right
      refine le_trans (show binade 960 ≤ binade 970 by decide) (hr.le_mag (by decide) ?_)
      have hone : (1 : ℝ) ≤ |((z + w : ℤ) : ℝ)| := by exact_mod_cast Int.one_le_abs hcancel
      rw [gridVal_binade_succ 969, abs_mul, abs_of_pos (show (0 : ℝ) < 2 ^ (-53 : ℤ) by positivity)]
      calc (2 : ℝ) ^ (((969 : ℕ) : ℤ) - 1022) = 1 * 2 ^ (-53 : ℤ) := by norm_num
        _ ≤ |((z + w : ℤ) : ℝ)| * 2 ^ (-53 : ℤ) := by gcongr

end

lemma FLane.sum (h : FLane n x) (hn : n ≤ 900) (hs : Addend s)
    (hr : Rounds m (value x + value s) zs r) : FLane (n + 1) r := by
  have hfin := h.isFinite hn
  rcases hs with hzero | ⟨hlow, hhigh⟩
  · have hmag : mag r = mag x := by
      apply hr.mag_eq hfin
      rw [value_eq_zero_iff.mpr hzero, add_zero]
    have hsucc := h.succ
    exact ⟨by rw [hmag]; exact hsucc.low, by rw [hmag]; exact hsucc.drift_le⟩
  · refine ⟨(low_sum hr hlow).imp_right Or.inr, ?_⟩
    have hsmall : binade 1120 + 1 < infMag := by decide
    have hmax : max (mag x) (binade 1120) + 1 < infMag := by
      have hx := h.mag_succ_lt hn
      omega
    have hle := mag_sum_le hr hhigh hmax
    have hdrift := h.drift_le
    by_cases hx : binade 1120 ≤ mag x
    -- here the addend moves the lane to a neighbour at most
    · rw [max_eq_left hx] at hle
      have hstep := drift_le_of_near (le_mag_sum hr hhigh hx hfin) hle
      omega
    -- and here the sum does not pass the neighbour of `binade 1120`
    · rw [max_eq_right (not_le.mp hx).le] at hle
      have hstart : drift (binade 1120) = 1120 := by decide
      by_cases hbelow : mag r < binade 1120
      · have hbound := drift_le_group (mag r)
        unfold binade at hbelow
        omega
      · have hnear : binade 1120 ≤ mag r + 1 := by omega
        have hstep := drift_le_of_near hnear hle
        omega

section
variable {arith : LaneCall → U64} (harith : CorrectlyRounded arith) (mode : RoundingMode)
include harith

lemma FLane.add (h : FLane n x) (hn : n ≤ 900) (hs : Addend s) :
    FLane (n + 1) (arith (.add mode x s)) := by
  rw [harith.add (h.isFinite hn) hs.isFinite]
  exact h.sum hn hs (rounds_round _ _ _)

lemma FLane.sub (h : FLane n x) (hn : n ≤ 900) (hs : Addend s) :
    FLane (n + 1) (arith (.sub mode x s)) := by
  rw [harith.sub (h.isFinite hn) hs.isFinite, sub_eq_add_neg, ← value_negate]
  exact h.sum hn hs.negate (rounds_round _ _ _)

end

end

/-! ## The domain of the sums -/

/-- Addition and subtraction receive and produce nothing else. -/
def LaneCall.SumInDomain (arith : LaneCall → U64) : LaneCall → Prop
  | add mode a b => ZeroOrNormal a ∧ ZeroOrNormal b ∧ ZeroOrNormal (arith (add mode a b))
  | sub mode a b => ZeroOrNormal a ∧ ZeroOrNormal b ∧ ZeroOrNormal (arith (sub mode a b))
  | _ => True

instance (arith : LaneCall → U64) : DecidablePred (LaneCall.SumInDomain arith)
  | .add .. => inferInstanceAs (Decidable (_ ∧ _ ∧ _))
  | .sub .. => inferInstanceAs (Decidable (_ ∧ _ ∧ _))
  | .mul .. => inferInstanceAs (Decidable True)
  | .div .. => inferInstanceAs (Decidable True)
  | .sqrt .. => inferInstanceAs (Decidable True)

/-! ## Operations and rounds -/

namespace Machine

lemma addend_value {m : Machine} (hm : m.Configured) (src : FloatOperand) :
    Addend (src.value m).low ∧ Addend (src.value m).high := by
  cases src with
  | reg i => exact ⟨(hm.a i).1.addend, (hm.a i).2.addend⟩
  | mem address => exact addend_lanesOfWord _

section
variable {arith : LaneCall → U64} (harith : CorrectlyRounded arith) {m m' : Machine} {op : Op}
  {n : ℕ}
include harith

lemma fLanes_of_exec (hm : m.Configured) (hn : n ≤ 900)
    (h : op.exec (fun call => some (arith call)) m = some m') (hf : Lanes (FLane n) m.f) :
    Lanes (FLane (n + 1)) m'.f := by
  have hsucc : Lanes (FLane (n + 1)) m.f := hf.imp fun _ hx => hx.succ
  cases op
  case addF dst src =>
    obtain rfl := Option.some.inj h
    have hsrc := addend_value hm src
    exact hsucc.setFin dst ⟨(hf dst).1.add harith _ hn hsrc.1, (hf dst).2.add harith _ hn hsrc.2⟩
  case subF dst src =>
    obtain rfl := Option.some.inj h
    have hsrc := addend_value hm src
    exact hsucc.setFin dst ⟨(hf dst).1.sub harith _ hn hsrc.1, (hf dst).2.sub harith _ hn hsrc.2⟩
  case scaleF dst =>
    obtain rfl := Option.some.inj h
    exact hsucc.setFin dst ⟨(hsucc dst).1.scale, (hsucc dst).2.scale⟩
  case swapF dst =>
    obtain rfl := Option.some.inj h
    exact hsucc.setFin dst (hsucc dst).symm
  case mulRcp | branch =>
    obtain rfl := Option.some.inj h
    split <;> exact hsucc
  all_goals
    obtain rfl := Option.some.inj h
    exact hsucc

lemma sumInDomain_of_mem_calls (hm : m.Configured) (hn : n + 1 ≤ 900) (hf : Lanes (FLane n) m.f) :
    ∀ call ∈ op.calls m, call.SumInDomain arith := by
  have hn' : n ≤ 900 := Nat.le_of_succ_le hn
  intro call hcall
  cases op
  case addF dst src =>
    have hadd {x s : U64} (hx : FLane n x) (hs : Addend s) :
        (LaneCall.add m.mode x s).SumInDomain arith :=
      ⟨hx.zeroOrNormal hn', hs.fLane.zeroOrNormal (by decide),
        (hx.add harith _ hn' hs).zeroOrNormal hn⟩
    have hsrc := addend_value hm src
    rcases List.mem_pair.mp hcall with rfl | rfl
    · exact hadd (hf dst).1 hsrc.1
    · exact hadd (hf dst).2 hsrc.2
  case subF dst src =>
    have hsub {x s : U64} (hx : FLane n x) (hs : Addend s) :
        (LaneCall.sub m.mode x s).SumInDomain arith :=
      ⟨hx.zeroOrNormal hn', hs.fLane.zeroOrNormal (by decide),
        (hx.sub harith _ hn' hs).zeroOrNormal hn⟩
    have hsrc := addend_value hm src
    rcases List.mem_pair.mp hcall with rfl | rfl
    · exact hsub (hf dst).1 hsrc.1
    · exact hsub (hf dst).2 hsrc.2
  case mulE | divE | sqrtE =>
    rcases List.mem_pair.mp hcall with rfl | rfl <;> exact trivial
  all_goals exact absurd hcall List.not_mem_nil

variable {program : List Op} {l : List Machine} {u : Machine}

/-- Every round adds at most one crossing. -/
lemma fLanes_of_rounds (h : Rounds arith program m l u) (hm : m.Configured)
    (hn : n + l.length ≤ 900) (hf : Lanes (FLane n) m.f) : Lanes (FLane (n + l.length)) u.f := by
  induction h generalizing n with
  | refl m => exact hf
  | @step m m' u l _ hdispatch _ ih =>
    have hsame := sameConfiguration_of_dispatch hdispatch
    obtain ⟨op, m₁, hfetch, hexec, rfl⟩ := dispatch_eq_some_iff.mp hdispatch
    rw [List.length_cons, Nat.add_comm l.length, ← Nat.add_assoc] at hn ⊢
    -- the bound on the number of rounds pays for the finiteness of each
    have hf' := fLanes_of_exec harith hm (by omega) hexec hf
    exact ih (hsame.toSameSetup.configured hm) hn hf'

variable (hlength : program.length = programSize) (hsound : TargetsSound program)
include hlength hsound

lemma fLanes_of_atEntry (hm : m.AtEntry) (h : Rounds arith program m l u) :
    Lanes (FLane 768) u.f ∧ u.Configured := by
  have hcount := (length_countP_le_of_rounds hlength hsound hm.pc h).1
  have hsame := (sameConfiguration_of_steps h).toSameSetup
  refine ⟨?_, hsame.configured hm.configured⟩
  have hstart : Lanes (FLane 0) m.f := by
    intro i
    obtain ⟨word, hword⟩ := hm.f i
    rw [hword]
    exact ⟨(addend_lanesOfWord word).1.fLane, (addend_lanesOfWord word).2.fLane⟩
  have hpoint := fLanes_of_rounds harith h hm.configured (by omega) hstart
  exact hpoint.imp fun _ hx => hx.mono (by omega)

end

end Machine

/-! ## The optimized interpreter -/

namespace Optimized

/-- With correctly rounded arithmetic, at every point of the instruction loop of every iteration
the lanes of `f` are finite, each a zero or a normal number, and addition and subtraction receive
and produce nothing else. -/
theorem fLanes_atEveryPoint (arith : LaneCall → U64) (harith : CorrectlyRounded arith)
    (bytes : List U128) (hbytes : bytes.length = programBytes) :
    ∃ program, CompactProgram.fromBytes bytes = some program ∧
      ∀ (vm : Vm) (rounds count : ℕ),
        vm.scratchpad.size = scratchpadWords → vm.roundingMode < 4 → 768 ≤ rounds →
        AtEveryPoint (fun call => some (arith call)) rounds program (vm.initVm program.entropy)
          count fun u =>
            Lanes ZeroOrNormal u.f ∧
            dispatch (restrict arith (LaneCall.SumInDomain arith)) program u
              = dispatch (fun call => some (arith call)) program u := by
  obtain ⟨program, hprogram, -, hencodes⟩ := exists_fromBytes hbytes
  refine ⟨program, hprogram, ?_⟩
  intro vm rounds count hsize hmode hrounds
  apply atEveryPoint hbytes hprogram hsize hmode hrounds
  intro m l u hentry hsteps
  obtain ⟨hf, hconfigured⟩ := Machine.fLanes_of_atEntry harith (length_programOps hbytes)
    (targetsSound_decodeOps (instructionWords bytes)) hentry hsteps
  refine ⟨hf.imp fun _ hx => hx.zeroOrNormal (by decide), ?_⟩
  rw [dispatch_toVm hencodes, dispatch_toVm hencodes]
  apply congrArg
  apply Machine.dispatch_congr
  intro op call hcall
  exact restrict_of_pos
    (Machine.sumInDomain_of_mem_calls harith hconfigured (by decide) hf call hcall)

/-- The first iteration of a program with instructions of every group, with arithmetic that rounds by
definition. -/
theorem fLanes_atEveryPoint_mixed :
    ∃ program, CompactProgram.fromBytes mixedBytes = some program ∧
      AtEveryPoint (fun call => some (roundingArith call)) 768 program
        ((Vm.newVm SeedMemory.noMemory).initVm program.entropy) 0 fun u =>
          Lanes ZeroOrNormal u.f := by
  obtain ⟨program, hprogram, hpoints⟩ := fLanes_atEveryPoint roundingArith
    correctlyRounded_roundingArith mixedBytes length_mixedBytes
  obtain ⟨state, entry, addr0, addr1, hstate, hentry, hall⟩ :=
    hpoints (Vm.newVm SeedMemory.noMemory) 768 0 (Vm.size_newVm SeedMemory.noMemory) (by decide)
      le_rfl
  exact ⟨program, hprogram, state, entry, addr0, addr1, hstate, hentry,
    fun l u hsteps => (hall l u hsteps).1⟩

end Optimized

end RandomXSp1
