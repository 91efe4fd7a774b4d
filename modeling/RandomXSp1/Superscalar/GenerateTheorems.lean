import RandomXSp1.Superscalar.Generate
import RandomXSp1.Superscalar.ExecuteTheorems

/-!
# Generated programs are well formed

The scheduler keeps, for every register, the group of the last emitted instruction that
writes it (`Recorded`), except between the macro operation that yields the result of an
instruction and the one that completes it; there it is already ahead by that instruction. A
destination is only selected before the result, against the record, so consecutive writers of
a register differ in their group (`GroupsDiffer`).
-/

namespace RandomXSp1.Superscalar

open Draw (expect)

/-! ## What a well-formed program is -/

/-- The clauses on a single instruction. -/
structure ScInstr.WellFormed (instr : ScInstr) : Prop where
  op : instr.info.op ≠ .invalid ∧ instr.info.op ≠ .count
  dst : 0 ≤ instr.dst ∧ instr.dst < 8
  src : if instr.info.op.readsSource then 0 ≤ instr.src ∧ instr.src < 8 else instr.src = -1
  distinct : instr.info.op ≠ .imulhR → instr.info.op ≠ .ismulhR → instr.src ≠ instr.dst
  displacement : instr.info.op = .iaddRs → instr.dst ≠ 5
  multiplier : instr.info.op = .imulRcp → isZeroOrPowerOf2 instr.imm32 = false

/-- The group an instruction is recorded under. -/
def ScInstr.group (instr : ScInstr) : ScOpcode × ℤ := (instr.opGroup, instr.opGroupPar)

/-- Consecutive writers of a register have different groups. -/
def GroupsDiffer (prog : List ScInstr) : Prop :=
  ∀ front mid back a b, prog = front ++ a :: mid ++ b :: back → a.dst = b.dst →
    (∀ c ∈ mid, c.dst ≠ a.dst) → a.group ≠ b.group

structure WellFormed (prog : List ScInstr) : Prop where
  size : prog.length ≤ 512
  instrs : ∀ instr ∈ prog, instr.WellFormed
  groups : GroupsDiffer prog

/-! ## Writers and their record -/

/-- The last instruction that writes register `r`. -/
def lastWriter (prog : List ScInstr) (r : ℤ) : Option ScInstr :=
  prog.reverse.find? fun instr => instr.dst = r

lemma lastWriter_append (prog : List ScInstr) (instr : ScInstr) (r : ℤ) :
    lastWriter (prog ++ [instr]) r = if instr.dst = r then some instr else lastWriter prog r := by
  rw [lastWriter, List.reverse_append, List.reverse_singleton, List.singleton_append,
    List.find?_cons]
  by_cases h : instr.dst = r
  · simp [h]
  · simp [h, lastWriter]

/-- Appending writers of other registers keeps the last writer. -/
lemma lastWriter_of_split {front mid : List ScInstr} {a : ScInstr} (h : ∀ c ∈ mid, c.dst ≠ a.dst) :
    lastWriter (front ++ a :: mid) a.dst = some a := by
  induction mid using List.reverseRecOn with
  | nil =>
    rw [lastWriter_append, if_pos rfl]
  | append_singleton mid c ih =>
    have hc : c.dst ≠ a.dst := h c (by simp)
    rw [← List.cons_append, ← List.append_assoc, lastWriter_append, if_neg hc]
    exact ih fun c hc => h c (by simp [hc])

/-- A program stays chained when the new instruction differs from the last writer of its
destination. -/
lemma GroupsDiffer.append {prog : List ScInstr} {instr : ScInstr} (h : GroupsDiffer prog)
    (hlast : ∀ w, lastWriter prog instr.dst = some w → w.group ≠ instr.group) :
    GroupsDiffer (prog ++ [instr]) := by
  intro front mid back a b hsplit hdst hmid
  rcases List.eq_nil_or_concat back with rfl | ⟨back, last, rfl⟩
  · -- the new instruction is the second writer
    obtain ⟨hprog, hb⟩ := List.append_inj' hsplit rfl
    have hb : instr = b := by simpa using hb
    subst hb
    apply hlast a
    rw [hprog, ← hdst]
    exact lastWriter_of_split hmid
  · have hsplit' : prog ++ [instr] = (front ++ a :: mid ++ b :: back) ++ [last] := by
      rw [hsplit, List.concat_eq_append]
      simp
    obtain ⟨hprog, -⟩ := List.append_inj' hsplit' rfl
    exact h front mid back a b hprog hdst hmid

lemma groupsDiffer_nil : GroupsDiffer [] := by
  intro front mid back a b hsplit
  simp at hsplit

/-- The register table holds the group of the last writer of each register. -/
def Recorded (registers : RegisterInfos) (prog : List ScInstr) : Prop :=
  ∀ (r : Fin 8) (w : ScInstr), lastWriter prog r.val = some w →
    (registers[r].lastOpGroup, registers[r].lastOpPar) = w.group

lemma recorded_nil (registers : RegisterInfos) : Recorded registers [] := by
  intro r w h
  simp [lastWriter] at h

/-- Recording an instruction at its destination follows its emission. -/
lemma Recorded.set {registers : RegisterInfos} {prog : List ScInstr} {instr : ScInstr}
    (h : Recorded registers prog) (hdst : 0 ≤ instr.dst ∧ instr.dst.toNat < 8) (latency : ℕ) :
    Recorded (registers.set instr.dst.toNat
      { latency, lastOpGroup := instr.opGroup, lastOpPar := instr.opGroupPar } hdst.2)
      (prog ++ [instr]) := by
  intro r w hw
  rw [lastWriter_append] at hw
  by_cases hr : instr.dst = r.val
  · rw [if_pos hr] at hw
    have hindex : instr.dst.toNat = r.val := by omega
    rw [← Option.some.inj hw]
    simp [hindex, ScInstr.group]
  · rw [if_neg hr] at hw
    have hindex : instr.dst.toNat ≠ r.val := by omega
    simp only [getElem_fin_eq, Vector.getElem_set_ne _ _ hindex]
    exact h r w hw

/-! ## Created instructions -/

/-- The descriptions `create` is called with. -/
def infos : List ScInstrInfo :=
  [isubR, ixorR, iaddRs, imulR, irorC, iaddC7, ixorC7, iaddC8, ixorC8, iaddC9, ixorC9, imulhR,
    ismulhR, imulRcp]

/-- The two opcodes that select their destination first and may reuse it as source. -/
def ScOpcode.isHighMultiply (op : ScOpcode) : Bool := op == .imulhR || op == .ismulhR

/-- Both selections come before the result, the source first except in high multiplies. -/
lemma infos_spec : ∀ info ∈ infos,
    (info.op ≠ .invalid ∧ info.op ≠ .count) ∧
    (0 ≤ info.dstOp ∧ info.dstOp ≤ info.resultOp) ∧ info.resultOp < info.size ∧
    (if info.op.readsSource then 0 ≤ info.srcOp ∧ info.srcOp ≤ info.resultOp
      else info.srcOp = -1) ∧
    (info.op.isHighMultiply = false → info.srcOp ≤ info.dstOp) := by
  decide

/-- What `create` fixes for good; the selections write the registers and the group parameter
only. -/
structure ScInstr.Created (instr : ScInstr) : Prop where
  info : instr.info ∈ infos
  reuse : instr.canReuse = instr.info.op.isHighMultiply
  par : instr.canReuse = true → instr.groupParIsSource = false
  multiplier : instr.info.op = .imulRcp → isZeroOrPowerOf2 instr.imm32 = false

lemma ScInstr.Created.of_select {instr : ScInstr} (h : instr.Created) (dst src par : ℤ) :
    ScInstr.Created { instr with dst, src, opGroupPar := par } :=
  ⟨h.info, h.reuse, h.par, h.multiplier⟩

/-- A fresh instruction has no source yet. -/
def ScInstr.Fresh (instr : ScInstr) : Prop := instr.Created ∧ instr.src = -1

section
variable {G : Type} (gen : Generator G)

lemma yields_getByte : Yields gen.getByte fun _ => True := Yields.draw gen.byte

lemma yields_getU32 : Yields gen.getU32 fun _ => True := Yields.draw gen.u32

lemma setWidth_ne_zero {v : U32} (h : isZeroOrPowerOf2 v = false) : v.setWidth 64 ≠ 0 := by
  intro h0
  have hv : v = 0 := by
    rw [← BitVec.toNat_inj] at h0 ⊢
    rw [BitVec.toNat_setWidth, Nat.mod_eq_of_lt (by have := v.isLt; omega)] at h0
    exact h0
  rw [hv] at h
  exact absurd h (by decide)

/-- `create` does not panic on a description it has an arm for: the reciprocal is taken of an
accepted multiplier. -/
theorem create_yields (precompute : Bool) (rounds : ℕ) {info : ScInstrInfo} (h : info ∈ infos) :
    Yields (ScInstr.create gen precompute rounds info) ScInstr.Fresh := by
  have hinfo := h
  simp only [infos, List.mem_cons, List.not_mem_nil, or_false] at h
  rcases h with rfl | rfl | rfl | rfl | rfl | rfl | rfl | rfl | rfl | rfl | rfl | rfl | rfl | rfl
  case inr.inr.inl =>
    exact (yields_getByte gen).bind fun modV _ =>
      Yields.pure ⟨⟨hinfo, rfl, nofun, nofun⟩, rfl⟩
  case inr.inr.inr.inr.inl =>
    refine Yields.bind (Yields.rejectWhile (P := fun _ => True) ?_ rounds) fun imm32 _ =>
      Yields.pure ⟨⟨hinfo, rfl, nofun, nofun⟩, rfl⟩
    exact (yields_getByte gen).bind fun _ _ => Yields.pure trivial
  case inr.inr.inr.inr.inr.inr.inr.inr.inr.inr.inr.inr.inr =>
    refine Yields.bind (Yields.rejectWhile (yields_getU32 gen) rounds) fun imm32 himm => ?_
    refine Yields.bind (P := fun _ => True) (Yields.ite (fun _ => ?_) fun _ => Yields.pure trivial)
      fun reciprocal _ => Yields.pure ⟨⟨hinfo, rfl, nofun, fun _ => himm.2⟩, rfl⟩
    obtain ⟨q, hq⟩ := exists_randomxReciprocal (setWidth_ne_zero himm.2)
    exact Yields.expect hq trivial
  case inl | inr.inl | inr.inr.inr.inl => exact Yields.pure ⟨⟨hinfo, rfl, nofun, nofun⟩, rfl⟩
  -- the remaining arms draw one word
  all_goals
    exact (yields_getU32 gen).bind fun word _ =>
      Yields.pure ⟨⟨hinfo, rfl, fun _ => rfl, nofun⟩, rfl⟩

/-- The sizes `create_for_slot` knows. -/
def slotSizes : List ℕ := [3, 4, 7, 8, 9, 10]

/-- Any draw indexes the slot tables inside their length. -/
lemma slot_infos {slots : List ScInstrInfo} {mask : U8} (hlen : mask.toNat < slots.length)
    (hslots : ∀ info ∈ slots, info ∈ infos) (byte : U8) :
    ∃ info ∈ infos, slots[(byte &&& mask).toNat]? = some info := by
  have hle : (byte &&& mask).toNat ≤ mask.toNat := by
    rw [BitVec.toNat_and]
    exact Nat.and_le_right
  have hlt : (byte &&& mask).toNat < slots.length := by omega
  exact ⟨_, hslots _ (List.getElem_mem hlt), List.getElem?_eq_getElem hlt⟩

theorem createForSlot_yields (precompute : Bool) (rounds : ℕ) {slotSize : ℕ}
    (h : slotSize ∈ slotSizes) (fetchType : ℕ) (isLast : Bool) :
    Yields (ScInstr.createForSlot gen precompute rounds slotSize fetchType isLast)
      ScInstr.Fresh := by
  have hdraw : ∀ (slots : List ScInstrInfo) (mask : U8), mask.toNat < slots.length →
      (∀ info ∈ slots, info ∈ infos) → Yields (do
        let byte ← gen.getByte
        let info ← expect slots[(byte &&& mask).toNat]?
        ScInstr.create gen precompute rounds info) ScInstr.Fresh := by
    intro slots mask hlen hslots
    refine (yields_getByte gen).bind fun byte _ => ?_
    obtain ⟨info, hmem, hget⟩ := slot_infos hlen hslots byte
    exact (Yields.expect hget hmem).bind fun info hmem => create_yields gen precompute rounds hmem
  simp only [slotSizes, List.mem_cons, List.not_mem_nil, or_false] at h
  rcases h with rfl | rfl | rfl | rfl | rfl | rfl
  · -- a slot of three bytes, with the high multiplies in the last one
    cases isLast
    · exact hdraw slot3L 1 (by decide) (by decide)
    · exact hdraw slot3L 3 (by decide) (by decide)
  · apply Yields.ite
    · intro _
      exact create_yields gen precompute rounds (show imulR ∈ infos by decide)
    · intro _
      exact hdraw slot4 1 (by decide) (by decide)
  · exact hdraw slot7 1 (by decide) (by decide)
  · exact hdraw slot8 1 (by decide) (by decide)
  · exact hdraw slot9 1 (by decide) (by decide)
  · exact create_yields gen precompute rounds (show slot10 ∈ infos by decide)

/-- Every slot of a fetched buffer has a size `create_for_slot` knows. -/
theorem fetchNext_yields (instr : ScInstr) (decodeCycle mulCount : ℕ) :
    Yields (DecoderBuffer.fetchNext gen instr decodeCycle mulCount) fun buffer =>
      ∀ size ∈ buffer.counts, size ∈ slotSizes := by
  apply Yields.ite
  · intro _
    exact Yields.pure (by decide)
  intro _
  apply Yields.ite
  · intro _
    exact Yields.pure (by decide)
  intro _
  apply Yields.ite
  · intro _
    refine (yields_getByte gen).bind fun byte _ => ?_
    apply Yields.pure
    split <;> decide
  intro _
  refine (yields_getByte gen).bind fun ix _ => ?_
  have hlt : (ix &&& 3).toNat < decodeBuffers.length := by
    have hle : (ix &&& 3).toNat ≤ 3 := by
      rw [BitVec.toNat_and]
      exact Nat.and_le_right
    show (ix &&& 3).toNat < 4
    omega
  have hall : ∀ buffer ∈ decodeBuffers, ∀ size ∈ buffer.counts, size ∈ slotSizes := by decide
  exact Yields.expect (List.getElem?_eq_getElem hlt) (hall _ (List.getElem_mem hlt))

/-! ## Selections -/

lemma selectRegister_yields (available : List (Fin 8)) :
    Yields (ScInstr.selectRegister gen available) fun choice =>
      ∀ i, choice = some i → i ∈ available := by
  rw [ScInstr.selectRegister]
  apply Yields.ite
  · intro _
    exact Yields.pure (by simp)
  intro hne
  have hpos : 0 < available.length := by
    rw [List.length_pos_iff]
    intro h
    exact hne (by rw [h]; rfl)
  have hindex : Yields (if available.length > 1 then do
      let draw ← gen.getU32
      pure (draw.toNat % available.length)
    else pure 0) fun index => index < available.length := by
    apply Yields.ite
    · intro _
      exact (yields_getU32 gen).bind fun draw _ => Yields.pure (Nat.mod_lt _ hpos)
    · intro _
      exact Yields.pure hpos
  refine hindex.bind fun index hlt => ?_
  refine (Yields.expect (List.getElem?_eq_getElem hlt) (List.getElem_mem hlt)).bind fun i hi => ?_
  apply Yields.pure
  intro j hj
  rw [← Option.some.inj hj]
  exact hi

/-- A selected destination is a register that was checked against the record. -/
lemma selectDestination_yields (instr : ScInstr) (cycle : ℕ) (allowChainMul : Bool)
    (registers : RegisterInfos) :
    Yields (instr.selectDestination gen cycle allowChainMul registers) fun choice =>
      ∀ instr', choice = some instr' → ∃ r : Fin 8, instr' = { instr with dst := r.val } ∧
        instr.isAvailable cycle allowChainMul registers r = true := by
  refine (selectRegister_yields gen _).bind fun choice hchoice => ?_
  cases choice with
  | none => exact Yields.pure (by simp)
  | some r =>
    apply Yields.pure
    intro instr' h
    refine ⟨r, (Option.some.inj h).symm, ?_⟩
    exact (List.mem_filter.mp (hchoice r rfl)).2

/-- A selected source is a register, and the group parameter changes only for instructions
grouped by their source or when `IADD_RS` must take the displacement register. -/
lemma selectSource_yields (instr : ScInstr) (cycle : ℕ) (registers : RegisterInfos) :
    Yields (instr.selectSource gen cycle registers) fun choice =>
      ∀ instr', choice = some instr' → ∃ (r : Fin 8) (par : ℤ),
        instr' = { instr with src := r.val, opGroupPar := par } ∧
        (instr.groupParIsSource = false → instr.info.op ≠ .iaddRs → par = instr.opGroupPar) := by
  apply Yields.ite
  · intro h
    apply Yields.pure
    intro instr' h'
    exact ⟨5, regNeedsDisplacementIx, (Option.some.inj h').symm, fun _ hop => absurd h.2.1 hop⟩
  intro _
  refine (selectRegister_yields gen _).bind fun choice hchoice => ?_
  cases choice with
  | none => exact Yields.pure (by simp)
  | some r =>
    apply Yields.pure
    intro instr' h
    rw [← Option.some.inj h]
    cases hpar : instr.groupParIsSource with
    | false => exact ⟨r, instr.opGroupPar, by simp, fun _ _ => rfl⟩
    | true => exact ⟨r, r.val, by simp, by simp⟩

/-- The look-ahead returns what a selection returned, at some cycle. -/
lemma lookForward_yields {select : ℕ → Draw G (Option ScInstr)} {P : ScInstr → Prop}
    (h : ∀ c, Yields (select c) fun choice => ∀ instr, choice = some instr → P instr)
    (remaining scheduleCycle cycle : ℕ) :
    Yields (lookForward select remaining scheduleCycle cycle) fun found =>
      ∀ instr, found.1 = some instr → P instr := by
  induction remaining generalizing scheduleCycle cycle with
  | zero => exact Yields.pure (by simp)
  | succ remaining ih =>
    refine (h scheduleCycle).bind fun choice hchoice => ?_
    cases choice with
    | none => exact ih _ _
    | some instr => exact Yields.pure hchoice

end

/-! ## Instructions in flight -/

/-- What is known of an instruction whose source has been selected by the macro operations
below `ms`, and its destination by those below `md`. -/
structure Selected (instr : ScInstr) (ms md : ℤ) (prog : List ScInstr) : Prop where
  created : instr.Created
  src : if 0 ≤ instr.info.srcOp ∧ instr.info.srcOp < ms then 0 ≤ instr.src ∧ instr.src < 8
    else instr.src = -1
  dst : instr.info.dstOp < md →
    (0 ≤ instr.dst ∧ instr.dst < 8) ∧ (instr.info.op = .iaddRs → instr.dst ≠ 5)
  distinct : instr.info.dstOp < md → instr.info.op.isHighMultiply = false → instr.src ≠ instr.dst
  differs : instr.info.dstOp < md →
    ∀ w, lastWriter prog instr.dst = some w → w.group ≠ instr.group

section
variable {instr : ScInstr} {m : ℕ} {prog : List ScInstr} {registers : RegisterInfos}

lemma selected_of_fresh (h : instr.Fresh) : Selected instr 0 0 prog := by
  obtain ⟨-, hdst, -, -, -⟩ := infos_spec _ h.1.info
  refine ⟨h.1, ?_, ?_, ?_, ?_⟩
  · rw [if_neg (by omega)]
    exact h.2
  all_goals
    intro hlt
    omega

/-- Selecting the source at its macro operation. Where the destination is already selected the
instruction is a high multiply, whose group parameter is not its source. -/
lemma Selected.source (h : Selected instr m m prog) (hm : (m : ℤ) = instr.info.srcOp) (r : Fin 8)
    {par : ℤ}
    (hpar : instr.groupParIsSource = false → instr.info.op ≠ .iaddRs → par = instr.opGroupPar) :
    Selected { instr with src := r.val, opGroupPar := par } (m + 1) m prog := by
  obtain ⟨-, hdst, -, hsrc, horder⟩ := infos_spec _ h.created.info
  have hhigh : instr.info.dstOp < m → instr.info.op.isHighMultiply = true := by
    intro hlt
    by_contra hlow
    have := horder (by simpa using hlow)
    omega
  refine ⟨h.created.of_select instr.dst r.val par, ?_, h.dst, ?_, ?_⟩
  · show if 0 ≤ instr.info.srcOp ∧ instr.info.srcOp < m + 1 then
      0 ≤ (r.val : ℤ) ∧ (r.val : ℤ) < 8 else (r.val : ℤ) = -1
    split at hsrc
    · rw [if_pos (by omega)]
      omega
    · -- an opcode without a source has no macro operation that selects one
      omega
  · intro hlt hlow
    rw [hhigh hlt] at hlow
    contradiction
  · intro hlt w hw
    have hop := hhigh hlt
    have hsame := hpar (h.created.par (h.created.reuse.trans hop)) (by
      intro hadd
      rw [hadd] at hop
      contradiction)
    have hd := h.differs hlt w hw
    show w.group ≠ (instr.opGroup, par)
    rw [hsame]
    exact hd

lemma Selected.source_skip (h : Selected instr m m prog) (hm : (m : ℤ) ≠ instr.info.srcOp) :
    Selected instr (m + 1) m prog := by
  refine ⟨h.created, ?_, h.dst, h.distinct, h.differs⟩
  have hiff : (0 ≤ instr.info.srcOp ∧ instr.info.srcOp < (m : ℤ) + 1) ↔
      (0 ≤ instr.info.srcOp ∧ instr.info.srcOp < m) := by
    omega
  simp only [hiff]
  exact h.src

/-- Selecting the destination at its macro operation, against the record. -/
lemma Selected.destination (h : Selected instr (m + 1) m prog)
    (hrecorded : Recorded registers prog) {cycle : ℕ} {allowChainMul : Bool} {r : Fin 8}
    (hr : instr.isAvailable cycle allowChainMul registers r = true) :
    Selected { instr with dst := r.val } (m + 1) (m + 1) prog := by
  simp only [ScInstr.isAvailable, Bool.and_eq_true, Bool.or_eq_true, bne_iff_ne, ne_eq] at hr
  obtain ⟨⟨⟨⟨-, hreuse⟩, -⟩, hgroup⟩, hdisp⟩ := hr
  refine ⟨h.created.of_select r.val instr.src instr.opGroupPar, h.src, ?_, ?_, ?_⟩
  · intro _
    refine ⟨⟨Int.natCast_nonneg r.val, Int.ofNat_lt.mpr r.isLt⟩, ?_⟩
    intro hop
    rcases hdisp with h' | h'
    · exact absurd hop h'
    · show (r.val : ℤ) ≠ 5
      rw [regNeedsDisplacementIx] at h'
      omega
  · intro _ hlow
    have hcan : instr.canReuse = false := h.created.reuse.trans hlow
    rw [hcan] at hreuse
    show instr.src ≠ r.val
    rcases hreuse with h' | h'
    · contradiction
    · exact fun heq => h' heq.symm
  · intro _ w hw
    have hrec := hrecorded r w hw
    show w.group ≠ (instr.opGroup, instr.opGroupPar)
    rw [← hrec]
    intro heq
    rw [Prod.mk.injEq] at heq
    rcases hgroup with h' | h'
    · exact h' heq.1
    · exact h' heq.2

lemma Selected.destination_skip (h : Selected instr (m + 1) m prog)
    (hm : (m : ℤ) ≠ instr.info.dstOp) : Selected instr (m + 1) (m + 1) prog := by
  have hlt : instr.info.dstOp < (m : ℤ) + 1 → instr.info.dstOp < m := by
    intro h
    omega
  exact ⟨h.created, h.src, fun h' => h.dst (hlt h'), fun h' => h.distinct (hlt h'),
    fun h' => h.differs (hlt h')⟩

/-- Once its last macro operation is done the instruction is well formed. -/
lemma Selected.wellFormed (h : Selected instr (m + 1) (m + 1) prog)
    (hm : instr.info.size ≤ m + 1) : instr.WellFormed := by
  obtain ⟨hop, hdst, hresult, hsrc, -⟩ := infos_spec _ h.created.info
  have hdone : instr.info.dstOp < (m : ℤ) + 1 := by omega
  refine ⟨hop, (h.dst hdone).1, ?_, ?_, (h.dst hdone).2, h.created.multiplier⟩
  · have hsel := h.src
    split at hsrc
    · rename_i hreads
      rw [if_pos hreads]
      rwa [if_pos (by omega)] at hsel
    · rename_i hreads
      rw [if_neg hreads]
      rwa [if_neg (by omega)] at hsel
  · intro h1 h2
    apply h.distinct hdone
    simp [ScOpcode.isHighMultiply, h1, h2]

end

/-! ## The scheduler's invariant -/

/-- The emitted part of the state. -/
structure Scheduler.Sound (s : Scheduler) : Prop where
  instrs : ∀ instr ∈ s.prog, instr.WellFormed
  groups : GroupsDiffer s.prog
  size : s.programSize = s.prog.length
  le : s.programSize ≤ superscalarMaxSize

/-- The current instruction is finished or thrown away. -/
def Scheduler.Idle (s : Scheduler) : Prop :=
  s.currentInstr.info.size ≤ s.macroOpIndex ∧ Recorded s.registers s.prog

/-- The record counts an instruction from its result on. -/
def RecordedUpTo (registers : RegisterInfos) (prog : List ScInstr) (instr : ScInstr) (m : ℕ) :
    Prop :=
  Recorded registers (if instr.info.resultOp < m then prog ++ [instr] else prog)

/-- The current instruction has macro operations to go. -/
structure Scheduler.InFlight (s : Scheduler) : Prop where
  lt : s.macroOpIndex < s.currentInstr.info.size
  room : s.programSize < superscalarMaxSize
  selected : Selected s.currentInstr s.macroOpIndex s.macroOpIndex s.prog
  recorded : RecordedUpTo s.registers s.prog s.currentInstr s.macroOpIndex

/-- The state between two inner iterations. -/
def Scheduler.Inv (s : Scheduler) : Prop := s.Sound ∧ (s.Idle ∨ s.InFlight)

section
variable {G : Type} (gen : Generator G)

/-- Retiring a macro operation keeps the invariant, and emits the instruction after its last
one. -/
theorem retire_yields {s : Scheduler} (hsound : s.Sound)
    (hlt : s.macroOpIndex < s.currentInstr.info.size) (hroom : s.programSize < superscalarMaxSize)
    (hselected : Selected s.currentInstr (s.macroOpIndex + 1) (s.macroOpIndex + 1) s.prog)
    (hrecorded : RecordedUpTo s.registers s.prog s.currentInstr s.macroOpIndex)
    (mop : ScMacroOp) (scheduleCycle : ℕ) :
    Yields (s.retire mop scheduleCycle : Draw G Scheduler) Scheduler.Inv := by
  obtain ⟨-, hdst, hresult, -, -⟩ := infos_spec _ hselected.created.info
  -- the register is written at the result's macro-op only, so at the others nothing is recorded
  refine Yields.bind (P := fun registers =>
    RecordedUpTo registers s.prog s.currentInstr (s.macroOpIndex + 1)) ?_ ?_
  · apply Yields.ite
    · intro hm
      have hrange := (hselected.dst (by omega)).1
      have hindex : 0 ≤ s.currentInstr.dst ∧ s.currentInstr.dst.toNat < 8 := by omega
      rw [dif_pos hindex]
      apply Yields.pure
      rw [RecordedUpTo, if_neg (by omega)] at hrecorded
      rw [RecordedUpTo, if_pos (by omega)]
      exact hrecorded.set hindex _
    · intro hm
      apply Yields.pure
      have hiff : s.currentInstr.info.resultOp < s.macroOpIndex + 1 ↔
          s.currentInstr.info.resultOp < s.macroOpIndex := by
        omega
      simp only [RecordedUpTo, hiff]
      exact hrecorded
  · intro registers hregisters
    apply Yields.ite
    · intro hge
      -- the last macro-op: the instruction is complete, and joins the program
      have hdone : s.currentInstr.info.size ≤ s.macroOpIndex + 1 := hge
      apply Yields.pure
      rw [RecordedUpTo, if_pos (by omega)] at hregisters
      refine ⟨⟨?_, ?_, ?_, ?_⟩, Or.inl ⟨hdone, hregisters⟩⟩
      · intro instr hinstr
        rcases List.mem_append.mp hinstr with h | h
        · exact hsound.instrs instr h
        · rw [List.mem_singleton.mp h]
          exact hselected.wellFormed hdone
      · exact hsound.groups.append (hselected.differs (by omega))
      · show s.programSize + 1 = (s.prog ++ [s.currentInstr]).length
        rw [List.length_append, List.length_singleton, hsound.size]
      · exact hroom
    · intro hmore
      exact Yields.pure ⟨⟨hsound.instrs, hsound.groups, hsound.size, hsound.le⟩,
        Or.inr ⟨not_le.mp hmore, hroom, hselected, hregisters⟩⟩

/-- What an iteration leaves behind, by the way it ends. -/
def Issue.Post : Issue → Prop
  | .stalled s => s.Sound ∧ Recorded s.registers s.prog
  | .saturated s _ => s.Sound ∧ s.portsSaturated = true
  | .issued s => s.Inv

lemma Scheduler.Sound.of_eq {s s' : Scheduler} (h : s.Sound) (hprog : s'.prog = s.prog)
    (hsize : s'.programSize = s.programSize) : s'.Sound :=
  ⟨by rw [hprog]; exact h.instrs, by rw [hprog]; exact h.groups,
    by rw [hprog, hsize]; exact h.size, by rw [hsize]; exact h.le⟩

/-- A macro operation of an instruction in flight. A stall comes before the result, so the
record is then the one of the emitted program. -/
theorem issue_yields {s : Scheduler} (hsound : s.Sound) (hflight : s.InFlight)
    (throwAwayCount : ℕ) : Yields (s.issue gen throwAwayCount) Issue.Post := by
  obtain ⟨-, hdst, hresult, hsrc, -⟩ := infos_spec _ hflight.selected.created.info
  have hearly : s.macroOpIndex ≤ s.currentInstr.info.resultOp →
      Recorded s.registers s.prog := by
    intro hle
    have h := hflight.recorded
    rwa [RecordedUpTo, if_neg (not_lt.mpr hle)] at h
  have hsrcEarly : (s.macroOpIndex : ℤ) = s.currentInstr.info.srcOp →
      s.macroOpIndex ≤ s.currentInstr.info.resultOp := by
    intro hm
    split at hsrc <;> omega
  rw [Scheduler.issue]
  refine (Yields.expect (P := fun _ => True) (List.getElem?_eq_getElem hflight.lt) trivial).bind
    fun mop _ => ?_
  generalize scheduleMop false mop s.portBusy s.cycle s.depCycle = dryRun
  obtain ⟨scheduled, portBusy⟩ := dryRun
  cases scheduled with
  | none => exact Yields.pure ⟨hsound.of_eq rfl rfl, rfl⟩
  | some scheduleCycle =>
  -- the source phase
  refine Yields.bind (P := fun found => (∀ instr, found.1 = some instr →
      Selected instr (s.macroOpIndex + 1) s.macroOpIndex s.prog ∧
      instr.info = s.currentInstr.info ∧
      ((s.macroOpIndex : ℤ) ≠ s.currentInstr.info.srcOp → instr = s.currentInstr)) ∧
    (found.1 = none → (s.macroOpIndex : ℤ) = s.currentInstr.info.srcOp)) ?_ ?_
  · apply Yields.ite
    · intro hm
      refine Yields.mono (lookForward_yields (fun c =>
        selectSource_yields gen s.currentInstr c s.registers) _ _ _) ?_
      intro found hfound
      refine ⟨?_, fun _ => hm⟩
      intro instr hinstr
      obtain ⟨r, par, rfl, hpar⟩ := hfound instr hinstr
      exact ⟨hflight.selected.source hm r hpar, rfl, fun hne => absurd hm hne⟩
    · intro hm
      apply Yields.pure
      refine ⟨?_, nofun⟩
      intro instr hinstr
      rw [← Option.some.inj hinstr]
      exact ⟨hflight.selected.source_skip hm, rfl, fun _ => rfl⟩
  intro found hfound
  obtain ⟨choice, scheduleCycle, cycle⟩ := found
  cases choice with
  | none => exact Yields.pure ⟨hsound.of_eq rfl rfl, hearly (hsrcEarly (hfound.2 rfl))⟩
  | some instr =>
  obtain ⟨hselected, hinfo, hsame⟩ := hfound.1 instr rfl
  -- the destination phase
  refine Yields.bind (P := fun found => (∀ instr', found.1 = some instr' →
      Selected instr' (s.macroOpIndex + 1) (s.macroOpIndex + 1) s.prog ∧
      instr'.info = s.currentInstr.info ∧
      RecordedUpTo s.registers s.prog instr' s.macroOpIndex) ∧
    (found.1 = none → (s.macroOpIndex : ℤ) = s.currentInstr.info.dstOp)) ?_ ?_
  · apply Yields.ite
    · intro hm
      have hm' : (s.macroOpIndex : ℤ) = s.currentInstr.info.dstOp := hm.trans (by rw [hinfo])
      have hrecorded := hearly (by omega)
      refine Yields.mono (lookForward_yields (P := fun instr' => ∃ (c : ℕ) (r : Fin 8),
        instr' = { instr with dst := r.val } ∧
          instr.isAvailable c (throwAwayCount > 0) s.registers r = true) (fun c =>
        (selectDestination_yields gen instr c (throwAwayCount > 0) s.registers).mono
          fun choice h instr' hinstr' => ⟨c, h instr' hinstr'⟩) _ _ _) ?_
      intro found hfound
      refine ⟨?_, fun _ => hm'⟩
      intro instr' hinstr'
      obtain ⟨c, r, rfl, hr⟩ := hfound instr' hinstr'
      refine ⟨hselected.destination hrecorded hr, hinfo, ?_⟩
      show Recorded s.registers (if instr.info.resultOp < s.macroOpIndex then _ else s.prog)
      rw [hinfo, if_neg (by omega)]
      exact hrecorded
    · intro hm
      apply Yields.pure
      refine ⟨?_, nofun⟩
      intro instr' hinstr'
      rw [← Option.some.inj hinstr']
      refine ⟨hselected.destination_skip hm, hinfo, ?_⟩
      by_cases hlate : s.currentInstr.info.resultOp < s.macroOpIndex
      · -- past the result both selections are done
        rw [hsame fun h => absurd (hsrcEarly h) (not_le.mpr hlate)]
        exact hflight.recorded
      · rw [RecordedUpTo, hinfo, if_neg hlate]
        exact hearly (not_lt.mp hlate)
  intro found hfound
  obtain ⟨choice, scheduleCycle, cycle⟩ := found
  cases choice with
  | none =>
    have hm := hfound.2 rfl
    exact Yields.pure ⟨hsound.of_eq rfl rfl, hearly (by omega)⟩
  | some instr' =>
  obtain ⟨hselected', hinfo', hrecorded'⟩ := hfound.1 instr' rfl
  simp only
  generalize scheduleMop true mop portBusy scheduleCycle scheduleCycle = commit
  obtain ⟨committed, portBusy'⟩ := commit
  cases committed with
  | none => exact Yields.pure ⟨hsound.of_eq rfl rfl, rfl⟩
  | some start =>
    refine Yields.bind (P := Scheduler.Inv) ?_ fun s' hs' => Yields.pure hs'
    apply retire_yields
    · exact hsound.of_eq rfl rfl
    · show s.macroOpIndex < instr'.info.size
      rw [hinfo']
      exact hflight.lt
    · exact hflight.room
    · exact hselected'
    · exact hrecorded'

/-! ## The loops -/

/-- The state after a decode buffer: the loops go on only where the ports are not saturated. -/
def Scheduler.Paused (s : Scheduler) : Prop :=
  s.Sound ∧ (s.portsSaturated = true ∨ s.Idle ∨ s.InFlight)

/-- Fetching an instruction into an idle state puts it in flight. -/
lemma fetch_yields (precompute : Bool) (rounds : ℕ) {buffer : DecoderBuffer}
    (hbuffer : ∀ size ∈ buffer.counts, size ∈ slotSizes) {bufferIndex : ℕ}
    (hslot : bufferIndex < buffer.size) {s : Scheduler} (hs : s.Inv)
    (hroom : s.macroOpIndex ≥ s.currentInstr.info.size → s.programSize < superscalarMaxSize) :
    Yields (if s.macroOpIndex ≥ s.currentInstr.info.size then do
        let slotSize ← expect buffer.counts[bufferIndex]?
        let instr ← ScInstr.createForSlot gen precompute rounds slotSize buffer.index
          (buffer.size = bufferIndex + 1)
        pure { s with currentInstr := instr, macroOpIndex := 0 }
      else pure s) fun s => s.Sound ∧ s.InFlight := by
  apply Yields.ite
  · intro hidle
    have hrecorded : Recorded s.registers s.prog := by
      rcases hs.2 with h | h
      · exact h.2
      · exact absurd h.lt (not_lt.mpr hidle)
    refine (Yields.expect (List.getElem?_eq_getElem hslot)
      (hbuffer _ (List.getElem_mem hslot))).bind fun slotSize hsize => ?_
    refine (createForSlot_yields gen precompute rounds hsize _ _).bind fun instr hfresh => ?_
    obtain ⟨-, -, hresult, -, -⟩ := infos_spec _ hfresh.1.info
    refine Yields.pure ⟨hs.1.of_eq rfl rfl, ?_, hroom hidle, selected_of_fresh hfresh, ?_⟩
    · show 0 < instr.info.size
      omega
    · rw [RecordedUpTo, if_neg (Nat.not_lt_zero _)]
      exact hrecorded
  · intro hmore
    refine Yields.pure ⟨hs.1, ?_⟩
    rcases hs.2 with h | h
    · exact absurd h.1 hmore
    · exact h

/-- Filling a decode buffer: each turn of the loop either advances the slot or throws an
instruction away. -/
theorem fillBuffer_yields (precompute : Bool) (rounds : ℕ) {buffer : DecoderBuffer}
    (hbuffer : ∀ size ∈ buffer.counts, size ∈ slotSizes) (bufferIndex throwAwayCount : ℕ)
    {s : Scheduler} (hs : s.Inv) :
    Yields (fillBuffer gen precompute rounds buffer bufferIndex throwAwayCount s)
      fun result => result.1.Paused := by
  rw [fillBuffer]
  apply Yields.ite
  · intro hslot
    apply Yields.ite
    · intro _
      exact Yields.pure ⟨hs.1, Or.inr hs.2⟩
    intro hgo
    have hroom : s.macroOpIndex ≥ s.currentInstr.info.size →
        s.programSize < superscalarMaxSize := by
      intro hidle
      by_contra hfull
      exact hgo ⟨hidle, Or.inr (not_lt.mp hfull)⟩
    refine (fetch_yields gen precompute rounds hbuffer hslot hs hroom).bind fun s hs => ?_
    refine (issue_yields gen hs.1 hs.2 throwAwayCount).bind fun outcome hpost => ?_
    cases outcome with
    | saturated s' throwAwayCount' => exact Yields.pure ⟨hpost.1, Or.inl hpost.2⟩
    | stalled s' =>
      apply Yields.ite
      · intro _
        exact fillBuffer_yields precompute rounds hbuffer bufferIndex (throwAwayCount + 1)
          ⟨hpost.1.of_eq rfl rfl, Or.inl ⟨le_rfl, hpost.2⟩⟩
      · intro _
        exact Yields.pure ⟨hpost.1.of_eq rfl rfl, Or.inr (Or.inl ⟨Nat.zero_le _, hpost.2⟩)⟩
    | issued s' => exact fillBuffer_yields precompute rounds hbuffer (bufferIndex + 1) 0 hpost
  · intro _
    exact Yields.pure ⟨hs.1, Or.inr hs.2⟩
termination_by (buffer.size - bufferIndex, maxThrowawayCount - throwAwayCount)

theorem fillBuffers_yields (precompute : Bool) (rounds decodeCycle throwAwayCount : ℕ)
    {s : Scheduler} (hs : s.Paused) :
    Yields (fillBuffers gen precompute rounds decodeCycle throwAwayCount s) Scheduler.Sound := by
  rw [fillBuffers]
  apply Yields.ite
  · intro hgo
    have hinv : s.Inv := by
      refine ⟨hs.1, ?_⟩
      rcases hs.2 with h | h
      · exact absurd h hgo.2.1
      · exact h
    refine (fetchNext_yields gen _ _ _).bind fun buffer hbuffer => ?_
    refine (fillBuffer_yields gen precompute rounds hbuffer 0 throwAwayCount hinv).bind
      fun result hresult => ?_
    obtain ⟨s', throwAwayCount'⟩ := result
    refine fillBuffers_yields precompute rounds (decodeCycle + 1) throwAwayCount'
      ⟨hresult.1.of_eq rfl rfl, ?_⟩
    rcases hresult.2 with h | h | h
    · exact Or.inl h
    · exact Or.inr (Or.inl h)
    · exact Or.inr (Or.inr ⟨h.lt, h.room, h.selected, h.recorded⟩)
  · intro _
    exact Yields.pure hs.1
termination_by randomxSuperscalarLatency - decodeCycle

lemma sound_initial : Scheduler.initial.Sound :=
  ⟨by simp [Scheduler.initial], groupsDiffer_nil, rfl, Nat.zero_le _⟩

/-! ## The finished program -/

lemma exists_asicLatencyStep {instr : ScInstr} (h : instr.WellFormed) (latencies : Vector ℕ 8) :
    ∃ latencies', asicLatencyStep latencies instr = some latencies' := by
  have hdst := h.dst
  have hindex : 0 ≤ instr.dst ∧ instr.dst.toNat < 8 := by omega
  rw [asicLatencyStep, dif_pos hindex]
  by_cases hsrc : instr.src < 0 ∨ instr.src = instr.dst
  · rw [if_pos hsrc]
    exact ⟨_, rfl⟩
  · have hlt : instr.src.toNat < 8 := by
      have := h.src
      split at this <;> omega
    rw [if_neg hsrc, Vector.getElem?_eq_getElem hlt]
    exact ⟨_, rfl⟩

lemma exists_asicLatencies {prog : List ScInstr} (h : ∀ instr ∈ prog, instr.WellFormed)
    (latencies : Vector ℕ 8) :
    ∃ latencies', prog.foldlM asicLatencyStep latencies = some latencies' := by
  induction prog generalizing latencies with
  | nil => exact ⟨latencies, rfl⟩
  | cons instr prog ih =>
    obtain ⟨latencies', hstep⟩ := exists_asicLatencyStep (h instr (by simp)) latencies
    obtain ⟨final, hrest⟩ := ih (fun i hi => h i (by simp [hi])) latencies'
    refine ⟨final, ?_⟩
    rw [List.foldlM_cons, hstep]
    exact hrest

lemma exists_decode {instr : ScInstr} (h : instr.WellFormed) :
    ∃ e, ScExecInstr.decode instr = some e := by
  have hsrc : instr.src = -1 ∨ (0 ≤ instr.src ∧ instr.src < 8) := by
    have := h.src
    split at this
    · exact Or.inr this
    · exact Or.inl this
  obtain ⟨decoded, hdecoded⟩ : ∃ decoded, ScExecInstr.decodeOpcode instr = some decoded := by
    rw [ScExecInstr.decodeOpcode]
    split
    case h_15 hop => exact absurd hop h.op.2
    case h_16 hop => exact absurd hop h.op.1
    all_goals exact ⟨_, rfl⟩
  simp only [ScExecInstr.decode, hdecoded, Option.bind_eq_bind, Option.bind_some, guard, h.dst,
    and_self, if_true, if_pos hsrc]
  exact ⟨_, rfl⟩

lemma exists_mapM_decode {prog : List ScInstr} (h : ∀ instr ∈ prog, instr.WellFormed) :
    ∃ exec, prog.mapM ScExecInstr.decode = some exec := by
  induction prog with
  | nil => exact ⟨[], rfl⟩
  | cons instr prog ih =>
    obtain ⟨e, he⟩ := exists_decode (h instr (by simp))
    obtain ⟨exec, hexec⟩ := ih fun i hi => h i (by simp [hi])
    refine ⟨e :: exec, ?_⟩
    rw [List.mapM_cons, he, hexec]
    rfl

theorem generate_yields (precompute : Bool) (rounds : ℕ) :
    Yields (ScProgram.generate gen precompute rounds) fun program => WellFormed program.prog := by
  have hstart : Scheduler.initial.Paused :=
    ⟨sound_initial, Or.inr (Or.inl ⟨le_rfl, recorded_nil _⟩)⟩
  rw [ScProgram.generate]
  refine (fillBuffers_yields gen precompute rounds 0 0 hstart).bind fun s hs => ?_
  obtain ⟨latencies, hlatencies⟩ := exists_asicLatencies
    (fun instr hinstr => hs.instrs instr (List.mem_of_mem_take hinstr)) (Vector.replicate 8 0)
  obtain ⟨exec, hexec⟩ := exists_mapM_decode hs.instrs
  refine (Yields.expect (P := fun _ => True) hlatencies trivial).bind fun latencies _ => ?_
  refine (Yields.expect (P := fun _ => True) hexec trivial).bind fun exec _ => ?_
  refine Yields.pure ⟨?_, hs.instrs, hs.groups⟩
  show s.prog.length ≤ 512
  rw [← hs.size]
  exact hs.le

end

end RandomXSp1.Superscalar
