import RandomXSp1.Vm.LaneTheorems

/-!
# The lanes of `e`

A multiplication by a lane of `a` and a square root of a value below one cannot decrease a lane of
`e`, and a division at most halves it, in every rounding mode. A masked lane leaves 768 binades, so
765 divisions lead neither to a zero nor to a subnormal number.
-/

namespace RandomXSp1

open Ieee
open SoftFp (RoundingMode)

/-- A lane of `e` with a margin of `k` binades: positive, and at least `2 ^ (k - 1023)`. -/
structure ELane (k : ℕ) (x : U64) : Prop where
  msb : x.msb = false
  le_mag : binade k ≤ mag x
  mag_le : mag x ≤ infMag

section
variable {x a d : U64} {j k : ℕ}

lemma ELane.mono (h : ELane k x) (hjk : j ≤ k) : ELane j x :=
  ⟨h.msb, (Nat.mul_le_mul_right _ hjk).trans h.le_mag, h.mag_le⟩

lemma Masked.eLane (h : Masked x) : ELane 768 x := by
  obtain ⟨hmsb, hlow, hhigh⟩ := h
  refine ⟨hmsb, hlow, ?_⟩
  unfold binade infMag at *
  omega

lemma ELane.eq_pack (h : ELane k x) (hinf : IsInf x) : x = pack false infMag := by
  rw [← pack_msb_mag x, h.msb, show mag x = infMag from hinf]

lemma ELane.of_inf (hk : binade k ≤ infMag) : ELane k (pack false infMag) := by
  have hmag : mag (pack false infMag) = infMag := mag_pack infMag_lt
  exact ⟨msb_pack infMag_lt, by rw [hmag]; exact hk, by rw [hmag]⟩

lemma ELane.isFinite (h : ELane k x) (hinf : ¬IsInf x) : IsFinite x :=
  lt_of_le_of_ne h.mag_le hinf

/-- The rounding of a real above a binade keeps its margin. -/
lemma ELane.of_rounds {m : Mode} {y : ℝ} {r : U64} (h : Rounds m y false r)
    (hk : binade k < infMag) (hy : gridVal 52 (-1074) (binade k) ≤ y) : ELane k r := by
  have hnonneg : 0 ≤ y := (gridVal_nonneg _).trans hy
  refine ⟨h.msb_eq_false hnonneg rfl, h.le_mag hk ?_, h.mag_le_infMag⟩
  rw [abs_of_nonneg hnonneg]
  exact hy

lemma ELane.le_value (h : ELane k x) : gridVal 52 (-1074) (binade k) ≤ value x := by
  rw [value_of_pos h.msb]
  exact gridVal_strictMono.monotone h.le_mag

lemma SmallPositive.isFinite (h : SmallPositive a) : IsFinite a := by
  have hlt := h.2.2
  unfold IsFinite infMag
  unfold binade at hlt
  omega

lemma SmallPositive.not_isZero (h : SmallPositive a) : ¬IsZero a := by
  have hlow := h.2.1
  unfold binade at hlow
  unfold IsZero
  omega

lemma SmallPositive.one_le_value (h : SmallPositive a) : 1 ≤ value a := by
  rw [value_of_pos h.1]
  calc (1 : ℝ) = gridVal 52 (-1074) (binade 1023) := by rw [gridVal_binade_succ 1022]; norm_num
    _ ≤ gridVal 52 (-1074) (mag a) := gridVal_strictMono.monotone h.2.1

lemma Masked.value_lt (h : Masked d) : value d < 2 := by
  rw [value_of_pos h.1]
  calc gridVal 52 (-1074) (mag d) < gridVal 52 (-1074) (binade 1024) := gridVal_strictMono h.2.2
    _ = 2 := by rw [gridVal_binade_succ 1023]; norm_num

lemma Masked.le_value (h : Masked d) : (2 : ℝ) ^ (-255 : ℤ) ≤ value d := by
  have hle := gridVal_strictMono (t := 52) (q := -1074) |>.monotone h.2.1
  rw [gridVal_binade_succ 767, ← value_of_pos h.1] at hle
  exact hle

lemma Masked.isNormal (h : Masked d) : IsNormal d := by
  have hmag := h.2
  unfold IsNormal minNormalMag infMag
  unfold binade at hmag
  omega

/-! ## One operation -/

section
variable {arith : LaneCall → U64} (harith : CorrectlyRounded arith) (mode : RoundingMode)
include harith

lemma ELane.mul (h : ELane k x) (ha : SmallPositive a) : ELane k (arith (.mul mode x a)) := by
  by_cases hinf : IsInf x
  · rw [harith.mul_inf (Or.inl hinf) hinf.not_isNaN ha.isFinite.not_isNaN hinf.not_isZero
      ha.not_isZero, h.msb, ha.1]
    exact .of_inf (h.le_mag.trans h.mag_le)
  · have hfin := h.isFinite hinf
    rw [harith.mul hfin ha.isFinite, h.msb, ha.1]
    apply ELane.of_rounds (rounds_round _ _ _) (lt_of_le_of_lt h.le_mag hfin)
    have hvalue := h.le_value
    have hnonneg : 0 ≤ gridVal 52 (-1074) (binade k) := gridVal_nonneg _
    calc gridVal 52 (-1074) (binade k) ≤ value x := hvalue
      _ = value x * 1 := (mul_one _).symm
      _ ≤ value x * value a := mul_le_mul_of_nonneg_left ha.one_le_value (hnonneg.trans hvalue)

/-- A division by less than two takes at most one binade. -/
lemma ELane.div (h : ELane (k + 1) x) (hk : 1 ≤ k) (hd : Masked d) :
    ELane k (arith (.div mode x d)) := by
  have hdfin := hd.isNormal.isFinite
  have hdpos : 0 < value d := lt_of_lt_of_le (by positivity) hd.le_value
  by_cases hinf : IsInf x
  · rw [harith.div_inf hinf hdfin, h.msb, hd.1]
    exact .of_inf ((h.mono (Nat.le_succ k)).le_mag.trans h.mag_le)
  · have hfin := h.isFinite hinf
    have hnonzero : ¬IsZero d := by
      intro hzero
      rw [value_eq_zero_iff.mpr hzero] at hdpos
      exact lt_irrefl _ hdpos
    rw [harith.div hfin hdfin hnonzero, h.msb, hd.1]
    apply ELane.of_rounds (rounds_round _ _ _)
      (lt_of_le_of_lt (h.mono (Nat.le_succ k)).le_mag hfin)
    have hdouble : gridVal 52 (-1074) (binade (k + 1)) = 2 * gridVal 52 (-1074) (binade k) := by
      rw [binade, Nat.add_mul, Nat.one_mul]
      exact gridVal_add_two_pow (by omega)
    have hvalue := h.le_value
    have hnonneg : 0 ≤ gridVal 52 (-1074) (binade k) := gridVal_nonneg _
    rw [le_div_iff₀ hdpos]
    calc gridVal 52 (-1074) (binade k) * value d ≤ gridVal 52 (-1074) (binade k) * 2 :=
          mul_le_mul_of_nonneg_left hd.value_lt.le hnonneg
      _ = gridVal 52 (-1074) (binade (k + 1)) := by rw [hdouble, mul_comm]
      _ ≤ value x := hvalue

/-- The root of a value below one is above it. -/
lemma ELane.sqrt (h : ELane k x) (hk : k ≤ 1023) : ELane k (arith (.sqrt mode x)) := by
  by_cases hinf : IsInf x
  · rw [harith.sqrt_inf hinf h.msb]
    exact h
  · have hfin := h.isFinite hinf
    rw [harith.sqrt hfin (Or.inl h.msb), h.msb]
    apply ELane.of_rounds (rounds_round _ _ _) (lt_of_le_of_lt h.le_mag hfin)
    have hnonneg : 0 ≤ gridVal 52 (-1074) (binade k) := gridVal_nonneg _
    have hone : gridVal 52 (-1074) (binade k) ≤ 1 := by
      calc gridVal 52 (-1074) (binade k) ≤ gridVal 52 (-1074) (binade 1023) :=
            gridVal_binade_mono hk
        _ = 1 := by rw [gridVal_binade_succ 1022]; norm_num
    apply Real.le_sqrt_of_sq_le
    calc gridVal 52 (-1074) (binade k) ^ 2 ≤ gridVal 52 (-1074) (binade k) :=
          pow_le_of_le_one hnonneg hone (by decide)
      _ ≤ value x := h.le_value

end

end

/-! ## The domain of the operations -/

/-- A positive normal number or positive infinity. -/
def PositiveNormal (x : U64) : Prop := x.msb = false ∧ minNormalMag ≤ mag x ∧ mag x ≤ infMag

instance : DecidablePred PositiveNormal :=
  fun x => inferInstanceAs (Decidable (x.msb = false ∧ minNormalMag ≤ mag x ∧ mag x ≤ infMag))

lemma ELane.positiveNormal {x : U64} {k : ℕ} (h : ELane k x) (hk : 1 ≤ k) : PositiveNormal x := by
  have hle := (h.mono hk).le_mag
  unfold binade at hle
  unfold PositiveNormal minNormalMag
  exact ⟨h.msb, by omega, h.mag_le⟩

lemma Masked.positiveNormal {d : U64} (h : Masked d) : PositiveNormal d :=
  h.eLane.positiveNormal (by decide)

lemma SmallPositive.positiveNormal {a : U64} (h : SmallPositive a) : PositiveNormal a := by
  obtain ⟨hmsb, hlow, hhigh⟩ := h
  unfold binade at hlow hhigh
  unfold PositiveNormal minNormalMag infMag
  exact ⟨hmsb, by omega, by omega⟩

/-- Multiplication, division and square root receive and produce nothing else. -/
def LaneCall.InDomain (arith : LaneCall → U64) : LaneCall → Prop
  | mul mode a b => PositiveNormal a ∧ PositiveNormal b ∧ PositiveNormal (arith (mul mode a b))
  | div mode a b => PositiveNormal a ∧ PositiveNormal b ∧ PositiveNormal (arith (div mode a b))
  | sqrt mode a => PositiveNormal a ∧ PositiveNormal (arith (sqrt mode a))
  | _ => True

instance (arith : LaneCall → U64) : DecidablePred (LaneCall.InDomain arith)
  | .add .. => inferInstanceAs (Decidable True)
  | .sub .. => inferInstanceAs (Decidable True)
  | .mul .. => inferInstanceAs (Decidable (_ ∧ _ ∧ _))
  | .div .. => inferInstanceAs (Decidable (_ ∧ _ ∧ _))
  | .sqrt .. => inferInstanceAs (Decidable (_ ∧ _))

/-! ## Operations and rounds -/

namespace Machine

section
variable {arith : LaneCall → U64} (harith : CorrectlyRounded arith) {m m' : Machine} {op : Op}
  {k : ℕ}
include harith

/-- Only a branch leaves the margin of the lanes of `e` as it is for certain. -/
lemma eLanes_of_exec (hm : m.Configured) (hk : 1 ≤ k) (hk' : k ≤ 1023)
    (h : op.exec (fun call => some (arith call)) m = some m')
    (he : Lanes (ELane (k + if !op.isBranch then 1 else 0)) m.e) : Lanes (ELane k) m'.e := by
  have hmono : Lanes (ELane k) m.e := he.imp fun _ hx => hx.mono (Nat.le_add_right _ _)
  cases op
  case mulE dst src =>
    obtain rfl := Option.some.inj h
    exact hmono.setFin dst ⟨(hmono dst).1.mul harith _ (hm.a src).1,
      (hmono dst).2.mul harith _ (hm.a src).2⟩
  case divE dst src =>
    obtain rfl := Option.some.inj h
    have hmasked := hm.maskE (lanesOfWord (m.load src))
    exact hmono.setFin dst ⟨(he dst).1.div harith _ hk hmasked.1,
      (he dst).2.div harith _ hk hmasked.2⟩
  case sqrtE dst =>
    obtain rfl := Option.some.inj h
    exact hmono.setFin dst ⟨(hmono dst).1.sqrt harith _ hk', (hmono dst).2.sqrt harith _ hk'⟩
  case swapE dst =>
    obtain rfl := Option.some.inj h
    exact hmono.setFin dst (hmono dst).symm
  case mulRcp | branch =>
    obtain rfl := Option.some.inj h
    split <;> exact hmono
  all_goals
    obtain rfl := Option.some.inj h
    exact hmono

/-- With two binades left an operation stays in the domain. -/
lemma inDomain_of_mem_calls (hm : m.Configured) (he : Lanes (ELane 2) m.e) :
    ∀ call ∈ op.calls m, call.InDomain arith := by
  have hpositive {x : U64} (hx : ELane 2 x) : PositiveNormal x := hx.positiveNormal (by decide)
  intro call hcall
  cases op
  case addF | subF =>
    rcases List.mem_pair.mp hcall with rfl | rfl <;> exact trivial
  case mulE dst src =>
    have hmul {x a : U64} (hx : ELane 2 x) (ha : SmallPositive a) :
        (LaneCall.mul m.mode x a).InDomain arith :=
      ⟨hpositive hx, ha.positiveNormal, hpositive (hx.mul harith _ ha)⟩
    rcases List.mem_pair.mp hcall with rfl | rfl
    · exact hmul (he dst).1 (hm.a src).1
    · exact hmul (he dst).2 (hm.a src).2
  case divE dst src =>
    have hdiv {x d : U64} (hx : ELane 2 x) (hd : Masked d) :
        (LaneCall.div m.mode x d).InDomain arith :=
      ⟨hpositive hx, hd.positiveNormal, (hx.div harith _ le_rfl hd).positiveNormal le_rfl⟩
    have hmasked := hm.maskE (lanesOfWord (m.load src))
    rcases List.mem_pair.mp hcall with rfl | rfl
    · exact hdiv (he dst).1 hmasked.1
    · exact hdiv (he dst).2 hmasked.2
  case sqrtE dst =>
    have hsqrt {x : U64} (hx : ELane 2 x) : (LaneCall.sqrt m.mode x).InDomain arith :=
      ⟨hpositive hx, hpositive (hx.sqrt harith _ (by decide))⟩
    rcases List.mem_pair.mp hcall with rfl | rfl
    · exact hsqrt (he dst).1
    · exact hsqrt (he dst).2
  all_goals exact absurd hcall List.not_mem_nil

variable {program : List Op} {l : List Machine} {u : Machine}

/-- Rounds take at most one binade for every dispatch that is not a branch. -/
lemma eLanes_of_rounds (h : Rounds arith program m l u) (hm : m.Configured) (hk : 1 ≤ k)
    (hk' : k + l.countP (fun u => !u.atBranch program) ≤ 1023)
    (he : Lanes (ELane (k + l.countP fun u => !u.atBranch program)) m.e) : Lanes (ELane k) u.e := by
  induction h with
  | refl m => exact he
  | @step m m' u l _ hdispatch _ ih =>
    have hsame := sameConfiguration_of_dispatch hdispatch
    obtain ⟨op, m₁, hfetch, hexec, rfl⟩ := dispatch_eq_some_iff.mp hdispatch
    have hbranch : m.atBranch program = op.isBranch := by
      rw [atBranch, hfetch]
      rfl
    -- the first round takes its binade now, and the others theirs from what is left
    rw [List.countP_cons, hbranch, ← Nat.add_assoc] at he hk'
    have he' := eLanes_of_exec harith hm (by omega) (by omega) hexec he
    exact ih (hsame.toSameSetup.configured hm) (by omega) he'

variable (hlength : program.length = programSize) (hsound : TargetsSound program)
include hlength hsound

/-- At every point of an instruction loop three binades are left. -/
lemma eLanes_of_atEntry (hm : m.AtEntry) (h : Rounds arith program m l u) :
    Lanes (ELane 3) u.e ∧ u.Configured := by
  have hcount := (length_countP_le_of_rounds hlength hsound hm.pc h).2
  have hsame := (sameConfiguration_of_steps h).toSameSetup
  refine ⟨?_, hsame.configured hm.configured⟩
  -- 768 binades of a mask, less 765 that rounds can take
  apply eLanes_of_rounds harith h hm.configured (by decide) (by omega)
  intro i
  obtain ⟨value, hvalue⟩ := hm.e i
  rw [hvalue]
  have hmasked := hm.configured.maskE value
  exact ⟨hmasked.1.eLane.mono (by omega), hmasked.2.eLane.mono (by omega)⟩

end

end Machine

/-! ## The optimized interpreter -/

namespace Optimized

/-- Positive infinity, or a normal number not below `2^-1020`. -/
def InfiniteOrLarge (x : U64) : Prop :=
  x = pack false infMag ∨ IsNormal x ∧ (2 : ℝ) ^ (-1020 : ℤ) ≤ value x

/-- A normal number in `[2^-255, 2)`. -/
def IsDivisor (x : U64) : Prop := IsNormal x ∧ (2 : ℝ) ^ (-255 : ℤ) ≤ value x ∧ value x < 2

lemma infiniteOrLarge_of_eLane {x : U64} (h : ELane 3 x) : InfiniteOrLarge x := by
  by_cases hinf : IsInf x
  · exact Or.inl (h.eq_pack hinf)
  · have hfin := h.isFinite hinf
    have hvalue := h.le_value
    rw [gridVal_binade_succ 2] at hvalue
    exact Or.inr ⟨⟨(h.positiveNormal (by decide)).2.1, hfin⟩, hvalue⟩

/-- With correctly rounded arithmetic, at every point of the instruction loop of every iteration
the lanes of `e` are infinite or not below `2^-1020`, what a division can divide by is a normal
number in `[2^-255, 2)`, and multiplication, division and square root stay in their domain. -/
theorem eLanes_atEveryPoint (arith : LaneCall → U64) (harith : CorrectlyRounded arith)
    (bytes : List U128) (hbytes : bytes.length = programBytes) :
    ∃ program, CompactProgram.fromBytes bytes = some program ∧
      ∀ (vm : Vm) (rounds count : ℕ),
        vm.scratchpad.size = scratchpadWords → vm.roundingMode < 4 → 768 ≤ rounds →
        AtEveryPoint (fun call => some (arith call)) rounds program (vm.initVm program.entropy)
          count fun u =>
            Lanes InfiniteOrLarge u.e ∧
            (∀ value, IsDivisor (u.maskRegisterExponentMantissa value).low ∧
              IsDivisor (u.maskRegisterExponentMantissa value).high) ∧
            dispatch (restrict arith (LaneCall.InDomain arith)) program u
              = dispatch (fun call => some (arith call)) program u := by
  obtain ⟨program, hprogram, -, hencodes⟩ := exists_fromBytes hbytes
  refine ⟨program, hprogram, ?_⟩
  intro vm rounds count hsize hmode hrounds
  apply atEveryPoint hbytes hprogram hsize hmode hrounds
  intro m l u hentry hsteps
  obtain ⟨he, hconfigured⟩ := Machine.eLanes_of_atEntry harith (length_programOps hbytes)
    (targetsSound_decodeOps (instructionWords bytes)) hentry hsteps
  refine ⟨he.imp fun _ hx => infiniteOrLarge_of_eLane hx, ?_, ?_⟩
  · intro value
    have hmasked := hconfigured.maskE value
    exact ⟨⟨hmasked.1.isNormal, hmasked.1.le_value, hmasked.1.value_lt⟩,
      ⟨hmasked.2.isNormal, hmasked.2.le_value, hmasked.2.value_lt⟩⟩
  · rw [dispatch_toVm hencodes, dispatch_toVm hencodes]
    apply congrArg
    apply Machine.dispatch_congr
    intro op call hcall
    exact restrict_of_pos (Machine.inDomain_of_mem_calls harith hconfigured
      (he.imp fun _ hx => hx.mono (by decide)) call hcall)

/-- The first iteration of a program with instructions of every group, with arithmetic that rounds by
definition. -/
theorem eLanes_atEveryPoint_mixed :
    ∃ program, CompactProgram.fromBytes mixedBytes = some program ∧
      AtEveryPoint (fun call => some (roundingArith call)) 768 program
        ((Vm.newVm SeedMemory.noMemory).initVm program.entropy) 0 fun u =>
          Lanes InfiniteOrLarge u.e := by
  obtain ⟨program, hprogram, hpoints⟩ := eLanes_atEveryPoint roundingArith
    correctlyRounded_roundingArith mixedBytes length_mixedBytes
  obtain ⟨state, entry, addr0, addr1, hstate, hentry, hall⟩ :=
    hpoints (Vm.newVm SeedMemory.noMemory) 768 0 (Vm.size_newVm SeedMemory.noMemory) (by decide)
      le_rfl
  exact ⟨program, hprogram, state, entry, addr0, addr1, hstate, hentry,
    fun l u hsteps => (hall l u hsteps).1⟩

end Optimized

end RandomXSp1
