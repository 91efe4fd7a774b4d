import RandomXSp1.Loops
import RandomXSp1.Superscalar.GenerateTheorems

/-!
# Latencies and the address register

The latency of a register is the length of the longest path in the graph of dependencies that
ends in its last writer, and the address register is the first one of largest latency.
-/

namespace RandomXSp1

/-! ## Longest paths -/

/-- Some path of so many nodes ends in the node. -/
inductive PathTo {α : Type} (dep : α → α → Prop) : α → ℕ → Prop
  | single (a : α) : PathTo dep a 1
  | snoc {a b : α} {n : ℕ} (path : PathTo dep b n) (h : dep a b) : PathTo dep a (n + 1)

section
variable {α : Type} {dep : α → α → Prop} {a : α} {m : ℕ}

/-- The longest path to a node goes on from a longest one to what it depends on. -/
lemma isGreatest_pathTo (hle : ∀ b n, dep a b → PathTo dep b n → n ≤ m)
    (hex : m = 0 ∨ ∃ b, dep a b ∧ PathTo dep b m) :
    IsGreatest {n | PathTo dep a n} (m + 1) := by
  constructor
  · cases hex with
    | inl hzero =>
      rw [hzero]
      exact .single a
    | inr hex =>
      obtain ⟨b, hdep, hpath⟩ := hex
      exact .snoc hpath hdep
  · intro n hn
    cases hn with
    | single => exact Nat.le_add_left 1 m
    | snoc hpath hdep => exact Nat.succ_le_succ (hle _ _ hdep hpath)

end

namespace Superscalar

/-! ## The graph of dependencies -/

/-- The last of the first `k` instructions that write the register. -/
def LastWriter (prog : List ScInstr) (register : ℤ) (k j : ℕ) : Prop :=
  j < k ∧ (∃ instr, prog[j]? = some instr ∧ instr.dst = register) ∧
    ∀ i instr, j < i → i < k → prog[i]? = some instr → instr.dst ≠ register

/-- An instruction depends on the previous writer of its destination and, if it has a source other
than its destination, on the previous writer of that source. -/
def DependsOn (prog : List ScInstr) (k j : ℕ) : Prop :=
  ∃ instr, prog[k]? = some instr ∧ (LastWriter prog instr.dst k j ∨
    (0 ≤ instr.src ∧ instr.src ≠ instr.dst) ∧ LastWriter prog instr.src k j)

/-- The number of instructions on the longest path to the last writer among the first `k`
instructions, 0 if there is none. -/
structure IsLatency (prog : List ScInstr) (k : ℕ) (register : ℤ) (latency : ℕ) : Prop where
  written : ∀ j, LastWriter prog register k j →
    IsGreatest {n | PathTo (DependsOn prog) j n} latency
  unwritten : (∀ j, ¬LastWriter prog register k j) → latency = 0

section
variable {prog : List ScInstr} {instr : ScInstr} {register : ℤ} {k j : ℕ}

lemma not_lastWriter_zero : ¬LastWriter prog register 0 j := fun h => Nat.not_lt_zero j h.1

/-- A register has one last writer. -/
lemma LastWriter.eq {j' : ℕ} (h : LastWriter prog register k j)
    (h' : LastWriter prog register k j') : j = j' := by
  obtain ⟨hlt, ⟨instr, hinstr, hdst⟩, hlast⟩ := h
  obtain ⟨hlt', ⟨instr', hinstr', hdst'⟩, hlast'⟩ := h'
  by_contra hne
  cases Nat.lt_or_gt_of_ne hne with
  | inl hless => exact hlast j' instr' hless hlt' hinstr' hdst'
  | inr hless => exact hlast' j instr hless hlt hinstr hdst

lemma lastWriter_succ_self (hinstr : prog[k]? = some instr) :
    LastWriter prog instr.dst (k + 1) j ↔ j = k := by
  constructor
  · intro h
    obtain ⟨hlt, -, hlast⟩ := h
    by_contra hne
    exact hlast k instr (by omega) (Nat.lt_succ_self k) hinstr rfl
  · intro h
    subst h
    exact ⟨Nat.lt_succ_self j, ⟨instr, hinstr, rfl⟩, fun i _ hlow hhigh => by omega⟩

lemma lastWriter_succ_of_ne (hinstr : prog[k]? = some instr) (hne : instr.dst ≠ register) :
    LastWriter prog register (k + 1) j ↔ LastWriter prog register k j := by
  constructor
  · intro h
    obtain ⟨hlt, ⟨writer, hwriter, hdst⟩, hlast⟩ := h
    have hjk : j ≠ k := by
      intro heq
      rw [heq, hinstr] at hwriter
      cases hwriter
      exact hne hdst
    exact ⟨by omega, ⟨writer, hwriter, hdst⟩, fun i c hlow hhigh => hlast i c hlow (by omega)⟩
  · intro h
    obtain ⟨hlt, hwriter, hlast⟩ := h
    refine ⟨by omega, hwriter, ?_⟩
    intro i c hlow hhigh hc
    by_cases hik : i = k
    · rw [hik, hinstr] at hc
      cases hc
      exact hne
    · exact hlast i c hlow (by omega) hc

/-- No path to the last writer is longer than the latency, which one of them reaches. -/
lemma IsLatency.le {latency n : ℕ} (h : IsLatency prog k register latency)
    (hj : LastWriter prog register k j) (hpath : PathTo (DependsOn prog) j n) : n ≤ latency :=
  (h.written j hj).2 hpath

lemma IsLatency.exists_path {latency : ℕ} (h : IsLatency prog k register latency) :
    latency = 0 ∨ ∃ j, LastWriter prog register k j ∧ PathTo (DependsOn prog) j latency := by
  by_cases hex : ∃ j, LastWriter prog register k j
  · obtain ⟨j, hj⟩ := hex
    exact Or.inr ⟨j, hj, (h.written j hj).1⟩
  · exact Or.inl (h.unwritten (not_exists.mp hex))

end

/-! ## The recurrence -/

section
variable {prog : List ScInstr} {instr : ScInstr} {latencies latencies' : Vector ℕ 8} {k : ℕ}

/-- What a step writes: the destination becomes one more than the deepest of its registers. -/
lemma exists_of_asicLatencyStep (h : asicLatencyStep latencies instr = some latencies') :
    ∃ (dst : Fin 8) (latency : ℕ), instr.dst = (dst : ℕ) ∧
      latencies' = latencies.setFin dst (latency + 1) ∧
      ((instr.src < 0 ∨ instr.src = instr.dst) ∧ latency = latencies[dst] ∨
        ∃ src : Fin 8, instr.src = (src : ℕ) ∧ instr.src ≠ instr.dst ∧
          latency = max latencies[dst] latencies[src]) := by
  unfold asicLatencyStep at h
  split at h
  · rename_i hindex
    have hdst : instr.dst = (instr.dst.toNat : ℤ) := (Int.toNat_of_nonneg hindex.1).symm
    by_cases hsrc : instr.src < 0 ∨ instr.src = instr.dst
    · rw [if_pos hsrc] at h
      cases h
      exact ⟨⟨instr.dst.toNat, hindex.2⟩, _, hdst, rfl, Or.inl ⟨hsrc, rfl⟩⟩
    · rw [if_neg hsrc] at h
      obtain ⟨latSrc, hlatSrc, h⟩ := Option.bind_eq_some_iff.mp h
      obtain ⟨latency, hlatency, rfl⟩ := Option.map_eq_some_iff.mp hlatSrc
      obtain ⟨hlt, hget⟩ := Vector.getElem?_eq_some_iff.mp hlatency
      cases h
      refine ⟨⟨instr.dst.toNat, hindex.2⟩, _, hdst, ?_, Or.inr ⟨⟨instr.src.toNat, hlt⟩, ?_,
        fun heq => hsrc (Or.inr heq), rfl⟩⟩
      · show latencies.set _ _ _ = latencies.set _ _ _
        rw [← hget]
        congr 1
        exact Nat.succ_max_succ _ _
      · exact (Int.toNat_of_nonneg (not_lt.mp fun hneg => hsrc (Or.inl hneg))).symm
  · cases h

/-- The longest path to the next instruction goes on from one to a writer of its registers. -/
lemma isGreatest_pathTo_instr (hinstr : prog[k]? = some instr)
    (hlat : ∀ d : Fin 8, IsLatency prog k (d : ℕ) latencies[d]) {dst : Fin 8} {latency : ℕ}
    (hdst : instr.dst = (dst : ℕ))
    (hlatency : (instr.src < 0 ∨ instr.src = instr.dst) ∧ latency = latencies[dst] ∨
      ∃ src : Fin 8, instr.src = (src : ℕ) ∧ instr.src ≠ instr.dst ∧
        latency = max latencies[dst] latencies[src]) :
    IsGreatest {n | PathTo (DependsOn prog) k n} (latency + 1) := by
  have hdep {j : ℕ} (h : DependsOn prog k j) : LastWriter prog instr.dst k j ∨
      (0 ≤ instr.src ∧ instr.src ≠ instr.dst) ∧ LastWriter prog instr.src k j := by
    obtain ⟨instr', hinstr', h⟩ := h
    rw [hinstr] at hinstr'
    cases hinstr'
    exact h
  have hwriter := hlat dst
  rw [← hdst] at hwriter
  cases hlatency with
  | inl hlatency =>
    -- no source of its own: only the writer of the destination counts
    obtain ⟨hsrc, rfl⟩ := hlatency
    apply isGreatest_pathTo
    · intro j n hj hpath
      cases hdep hj with
      | inl hj => exact hwriter.le hj hpath
      | inr hj => exact absurd hsrc (by omega)
    · refine hwriter.exists_path.imp_right fun h => ?_
      obtain ⟨j, hj, hpath⟩ := h
      exact ⟨j, ⟨instr, hinstr, Or.inl hj⟩, hpath⟩
  | inr hlatency =>
    -- two registers: the longer of the paths to their writers
    obtain ⟨src, hsrc, hne, rfl⟩ := hlatency
    have hsource := hlat src
    rw [← hsrc] at hsource
    have hpos : 0 ≤ instr.src := by omega
    apply isGreatest_pathTo
    · intro j n hj hpath
      cases hdep hj with
      | inl hj => exact le_max_of_le_left (hwriter.le hj hpath)
      | inr hj => exact le_max_of_le_right (hsource.le hj.2 hpath)
    · cases max_choice latencies[dst] latencies[src] with
      | inl hmax =>
        rw [hmax]
        refine hwriter.exists_path.imp_right fun h => ?_
        obtain ⟨j, hj, hpath⟩ := h
        exact ⟨j, ⟨instr, hinstr, Or.inl hj⟩, hpath⟩
      | inr hmax =>
        rw [hmax]
        refine hsource.exists_path.imp_right fun h => ?_
        obtain ⟨j, hj, hpath⟩ := h
        exact ⟨j, ⟨instr, hinstr, Or.inr ⟨⟨hpos, hne⟩, hj⟩⟩, hpath⟩

/-- The latencies are right after one more instruction. -/
lemma isLatency_step (hinstr : prog[k]? = some instr)
    (hlat : ∀ d : Fin 8, IsLatency prog k (d : ℕ) latencies[d])
    (hstep : asicLatencyStep latencies instr = some latencies') (d : Fin 8) :
    IsLatency prog (k + 1) (d : ℕ) latencies'[d] := by
  obtain ⟨dst, latency, hdst, rfl, hlatency⟩ := exists_of_asicLatencyStep hstep
  by_cases hd : d = dst
  · subst hd
    have hset : (latencies.setFin d (latency + 1))[d] = latency + 1 :=
      Vector.getElem_set_self d.isLt
    rw [hset, ← hdst]
    constructor
    · intro j hj
      rw [(lastWriter_succ_self hinstr).mp hj]
      exact isGreatest_pathTo_instr hinstr hlat hdst hlatency
    · intro hnone
      exact absurd ((lastWriter_succ_self hinstr).mpr rfl) (hnone k)
  · have hset : (latencies.setFin dst (latency + 1))[d] = latencies[d] :=
      Vector.getElem_set_ne dst.isLt d.isLt fun h => hd (Fin.ext h.symm)
    have hne : instr.dst ≠ (d : ℕ) := by
      rw [hdst]
      exact fun h => hd (Fin.ext (Int.ofNat_inj.mp h).symm)
    rw [hset]
    constructor
    · intro j hj
      exact (hlat d).written j ((lastWriter_succ_of_ne hinstr hne).mp hj)
    · intro hnone
      exact (hlat d).unwritten fun j hj => hnone j ((lastWriter_succ_of_ne hinstr hne).mpr hj)

/-- The loop over the rest of the program. -/
lemma isLatency_foldlM {done rest : List ScInstr}
    (hlat : ∀ d : Fin 8, IsLatency (done ++ rest) done.length (d : ℕ) latencies[d])
    (hloop : rest.foldlM asicLatencyStep latencies = some latencies') (d : Fin 8) :
    IsLatency (done ++ rest) (done ++ rest).length (d : ℕ) latencies'[d] := by
  induction rest generalizing done latencies with
  | nil =>
    cases hloop
    have hdone := hlat d
    rwa [List.append_nil] at hdone ⊢
  | cons instr rest ih =>
    rw [List.foldlM_cons] at hloop
    obtain ⟨next, hstep, hrest⟩ := Option.bind_eq_some_iff.mp hloop
    have hinstr : (done ++ instr :: rest)[done.length]? = some instr := by
      rw [List.getElem?_append_right le_rfl, Nat.sub_self]
      rfl
    have hnext := isLatency_step hinstr hlat hstep
    have hmove : done ++ instr :: rest = (done ++ [instr]) ++ rest := by
      rw [List.append_assoc]
      rfl
    rw [hmove] at hnext ⊢
    rw [show done.length + 1 = (done ++ [instr]).length by simp] at hnext
    exact ih hnext hrest

/-! ## The address register -/

/-- The first of the registers of largest latency. -/
structure IsFirstMax (latencies : Vector ℕ 8) (register : Fin 8) : Prop where
  max : ∀ d : Fin 8, latencies[d] ≤ latencies[register]
  first : ∀ d < register, latencies[d] < latencies[register]

/-- The best of the first `k` registers, or 0 where all of them are 0. -/
structure IsBest (latencies : Vector ℕ 8) (k : ℕ) (best : ℕ × Fin 8) : Prop where
  max : ∀ d : Fin 8, d.val < k → latencies[d] ≤ best.1
  first : ∀ d < best.2, latencies[d] < best.1
  value : best = (0, 0) ∨ best.1 = latencies[best.2]

lemma IsBest.step {latencies : Vector ℕ 8} {i : Fin 8} {best : ℕ × Fin 8}
    (h : IsBest latencies i best) :
    IsBest latencies (i + 1) (if latencies[i] > best.1 then (latencies[i], i) else best) := by
  by_cases hgt : latencies[i] > best.1
  · rw [if_pos hgt]
    refine ⟨?_, fun d hd => (h.max d hd).trans_lt hgt, Or.inr rfl⟩
    intro d hd
    by_cases hdi : d = i
    · exact le_of_eq (congrArg (fun d : Fin 8 => latencies[d]) hdi)
    · have hne : d.val ≠ i := fun heq => hdi (Fin.ext heq)
      exact (h.max d (by omega)).trans hgt.le
  · rw [if_neg hgt]
    refine ⟨?_, h.first, h.value⟩
    intro d hd
    by_cases hdi : d = i
    · rw [hdi]
      exact not_lt.mp hgt
    · have hne : d.val ≠ i := fun heq => hdi (Fin.ext heq)
      exact h.max d (by omega)

lemma isFirstMax_addressRegister (latencies : Vector ℕ 8) :
    IsFirstMax latencies (addressRegister latencies) := by
  have hinit : IsBest latencies 0 (0, 0) :=
    ⟨fun d hd => absurd hd (Nat.not_lt_zero d), fun d hd => absurd hd (Fin.not_lt_zero d), Or.inl rfl⟩
  have hbest := foldl_finRange_invariant (fun i best h => IsBest.step h) hinit
  unfold addressRegister
  generalize List.foldl _ _ _ = best at hbest ⊢
  have hmax (d : Fin 8) : latencies[d] ≤ best.1 := hbest.max d d.isLt
  cases hbest.value with
  | inl hzero =>
    rw [hzero] at hmax ⊢
    exact ⟨fun d => (hmax d).trans (Nat.zero_le _), fun d hd => absurd hd (Fin.not_lt_zero d)⟩
  | inr hvalue =>
    have hfirst := hbest.first
    rw [hvalue] at hmax hfirst
    exact ⟨hmax, hfirst⟩

/-! ## The generated program -/

section
variable {G : Type} (gen : Generator G)

/-- Generation does not panic, and every program it emits records the lengths of the longest
dependency paths to the last writers, and selects the first register of largest latency. -/
theorem generate_latencies (precompute : Bool) (rounds : ℕ) :
    Yields (ScProgram.generate gen precompute rounds) fun program =>
      (∀ d : Fin 8,
        IsLatency program.prog program.prog.length (d : ℕ) program.asicLatencies[d]) ∧
      IsFirstMax program.asicLatencies program.addressReg ∧ program.addressReg.val < 8 := by
  have hstart : Scheduler.initial.Paused :=
    ⟨sound_initial, Or.inr (Or.inl ⟨le_rfl, recorded_nil _⟩)⟩
  unfold ScProgram.generate
  refine (fillBuffers_yields gen precompute rounds 0 0 hstart).bind fun s hs => ?_
  rw [hs.size, List.take_length]
  obtain ⟨latencies, hlatencies⟩ := exists_asicLatencies hs.instrs (Vector.replicate 8 0)
  obtain ⟨exec, hexec⟩ := exists_mapM_decode hs.instrs
  refine (Yields.expect hlatencies rfl).bind fun latencies' heq => ?_
  refine (Yields.expect (P := fun _ => True) hexec trivial).bind fun exec _ => ?_
  subst heq
  refine Yields.pure ⟨?_, isFirstMax_addressRegister _, Fin.isLt _⟩
  intro d
  have hempty (d : Fin 8) :
      IsLatency ([] ++ s.prog) ([] : List ScInstr).length (d : ℕ) (Vector.replicate 8 0)[d] :=
    ⟨fun j hj => absurd hj not_lastWriter_zero, fun _ => Vector.getElem_replicate d.isLt⟩
  exact isLatency_foldlM hempty hlatencies d

end

end

end Superscalar

end RandomXSp1
