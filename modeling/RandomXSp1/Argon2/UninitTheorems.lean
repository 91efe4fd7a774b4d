import RandomXSp1.Argon2.Uninit
import RandomXSp1.Argon2.Theorems

/-!
# The first pass initialises the memory

The reference offset stays in its types and out of the blocks it must not name, for every
pseudo-random word. So the checked run goes through: the first pass reads only blocks below the
current one and writes one more of them in each iteration, and the later passes work on a lane
that is all written.
-/

namespace RandomXSp1.Argon2

/-! ## The reference offset -/

section
variable {firstPass : Bool} {pass slice index : ℕ}

lemma InLoop.checkedReferenceAreaSize_eq (h : InLoop firstPass pass slice index) :
    checkedReferenceAreaSize firstPass (slice * segmentLength + index) index =
      some (Textbook.referenceArea segmentLength pass slice index) := by
  have hindex := h.index_lt
  have htwo := h.two_le
  rw [← h.referenceArea_eq]
  unfold checkedReferenceAreaSize laneLength segmentLength at *
  cases firstPass with
  | true =>
    have htwo := htwo rfl
    exact checkedSub_eq (by omega)
  | false =>
    rw [if_neg Bool.false_ne_true, if_neg Bool.false_ne_true, checkedSub_eq (by norm_num),
      Option.bind_eq_bind, Option.bind_some, checkedAdd_eq (by omega), Option.bind_some,
      checkedSub_eq (by omega)]

lemma checkedRelativePosition_eq (pseudoRand : U64) {area : ℕ} (hpos : 0 < area)
    (harea : area ≤ laneLength) :
    checkedRelativePosition area pseudoRand =
      some (area - 1 - area * ((pseudoRand.toNat % 2 ^ 32) ^ 2 / 2 ^ 32) / 2 ^ 32) := by
  have hmask : (pseudoRand &&& 0xffffffff#64).toNat = pseudoRand.toNat % 2 ^ 32 := by
    rw [and_mask_eq_trunc, Textbook.trunc, BitVec.toNat_setWidth, BitVec.toNat_setWidth]
    omega
  have hjlt : pseudoRand.toNat % 2 ^ 32 < 2 ^ 32 := Nat.mod_lt _ (by norm_num)
  simp only [checkedRelativePosition, hmask]
  generalize pseudoRand.toNat % 2 ^ 32 = j at *
  have hsq : j * j ≤ (2 ^ 32 - 1) * (2 ^ 32 - 1) := Nat.mul_le_mul (by omega) (by omega)
  have hx : (j * j) >>> 32 = j ^ 2 / 2 ^ 32 := by rw [Nat.shiftRight_eq_div_pow, pow_two]
  have hxlt : j ^ 2 / 2 ^ 32 < 2 ^ 32 := by
    rw [pow_two]
    omega
  rw [checkedMul_eq (by omega), Option.bind_eq_bind, Option.bind_some, hx]
  generalize j ^ 2 / 2 ^ 32 = x at *
  have hax : area * x < area * 2 ^ 32 := Nat.mul_lt_mul_of_pos_left hxlt hpos
  unfold laneLength at harea
  rw [checkedMul_eq (by omega), Option.bind_some, checkedSub_eq (by omega), Option.bind_some,
    Nat.shiftRight_eq_div_pow, checkedSub_eq (by omega)]

lemma InLoop.checkedStartPosition_eq (h : InLoop firstPass pass slice index) :
    checkedStartPosition firstPass slice =
      some (if firstPass || slice == syncPoints - 1 then 0 else (slice + 1) * segmentLength) := by
  have hslice := h.slice_lt
  unfold checkedStartPosition
  split
  · rfl
  · rw [checkedAdd_eq (by omega), Option.bind_eq_bind, Option.bind_some]
    apply checkedMul_eq
    unfold segmentLength
    omega

/-- The start position with the wrap of the later passes. -/
lemma InLoop.referenceStart_eq (h : InLoop firstPass pass slice index) :
    Textbook.referenceStart segmentLength pass slice =
      if firstPass || slice == syncPoints - 1 then 0 else (slice + 1) * segmentLength := by
  have hslice := h.slice_lt
  unfold Textbook.referenceStart syncPoints
  cases firstPass with
  | true => simp [h.firstPass_iff.mp rfl]
  | false =>
    have hpass : pass ≠ 0 := fun h0 => Bool.false_ne_true (h.firstPass_iff.mpr h0)
    rw [if_neg hpass]
    by_cases h3 : slice = 3
    · simp [h3]
    · rw [Nat.mod_eq_of_lt (by omega)]
      simp [h3]

/-- No operation of the formula leaves its type. -/
lemma InLoop.checkedRefOffset_eq (h : InLoop firstPass pass slice index) (pseudoRand : U64) :
    checkedRefOffset firstPass slice (slice * segmentLength) (slice * segmentLength + index)
        pseudoRand =
      some (Textbook.referenceIndex segmentLength pass slice index pseudoRand) := by
  have hlt := h.referenceArea_lt
  have hslice := h.slice_lt
  unfold checkedRefOffset
  rw [checkedSub_eq (Nat.le_add_right _ _), Option.bind_eq_bind, Option.bind_some,
    Nat.add_sub_cancel_left, h.checkedReferenceAreaSize_eq, Option.bind_some,
    checkedRelativePosition_eq pseudoRand h.referenceArea_bounds.1 hlt.le, Option.bind_some,
    h.checkedStartPosition_eq, Option.bind_some]
  unfold Textbook.referenceIndex
  rw [h.referenceStart_eq]
  generalize Textbook.referenceArea segmentLength pass slice index = area at *
  dsimp only
  generalize hz : area - 1 - _ = z
  have hzlt : z < 262144 := by
    unfold laneLength at hlt
    omega
  by_cases hwrap : (firstPass || slice == syncPoints - 1) = true
  · -- the start position is zero, and the relative one stays in the lane
    rw [if_pos hwrap, zero_add, checkedAdd_eq (by omega), Option.bind_some, if_pos hwrap,
      zero_add, if_pos (show z < laneLength from hzlt)]
    unfold segmentLength
    rw [Nat.mod_eq_of_lt (by omega)]
  · unfold segmentLength
    rw [if_neg hwrap, checkedAdd_eq (by omega), Option.bind_some, if_neg hwrap]
    exact congrArg some (Nat.and_two_pow_sub_one_eq_mod _ 18)

end

/-! ## Blocks -/

namespace Cell

@[simp] lemma get_init (block : Block) (k : Fin qwordsInBlock) :
    (init block).get k = some block[k] := getElem_map_fin some block k

lemma ext {cell cell' : Cell} (h : ∀ k : Fin qwordsInBlock, cell[k] = cell'[k]) : cell = cell' := by
  apply Vector.ext
  intro k hk
  exact h ⟨k, hk⟩

@[simp] lemma assumeInit_init (block : Block) : (init block).assumeInit = some block := by
  have hall : ∀ k, ((init block).get k).isSome := by simp
  rw [assumeInit, if_pos hall]
  apply congrArg some
  apply block_ext
  intro k
  rw [getElem_map_fin]
  exact congrArg (Option.getD · 0) (get_init block k)

lemma assumeInit_uninit : uninit.assumeInit = none := by
  apply if_neg
  intro hall
  have hzero := hall ⟨0, by decide⟩
  rw [uninit, Vector.get_replicate] at hzero
  exact absurd hzero (by decide)

lemma init_setFin (block : Block) (k : Fin qwordsInBlock) (x : U64) :
    (init block).setFin k (some x) = init (block.setFin k x) :=
  Vector.map_set.symm

lemma xorWords_init (block : Block) (position : Fin 16 → Fin qwordsInBlock) (v : Vector U64 16) :
    xorWords (init block) position v = some (init (Argon2.xorWords block position v)) := by
  apply foldlM_eq_foldl init
  intro block j
  rw [get_init, Option.bind_eq_bind, Option.bind_some, init_setFin]
  rfl

lemma readWords_init (block : Block) (position : Fin 16 → Fin qwordsInBlock) :
    readWords (init block) position = some (Vector.ofFn fun j => block[position j]) := by
  simp [readWords]

/-- Once every column is written, nothing is left of what the storage held. -/
lemma foldl_writeWords_columns (v : Fin 8 → Vector U64 16) (cell : Cell) (block : Block) :
    (List.finRange 8).foldl (fun cell i => writeWords cell (columnWord i) (v i)) cell =
      init ((List.finRange 8).foldl
        (fun words i => Argon2.writeWords words (columnWord i) (v i)) block) := by
  apply ext
  intro k
  have hcell := getElem_foldl_columns (fun ij _ => some ((v ij.1).get ij.2))
    (fun ij => columnWord ij.1 ij.2) columnWord_injective cell (Textbook.rowOf k)
  have hblock := getElem_foldl_columns (fun ij _ => (v ij.1)[ij.2])
    (fun ij => columnWord ij.1 ij.2) columnWord_injective block (Textbook.rowOf k)
  simp only [columnWord_rowOf] at hcell hblock
  refine hcell.trans ?_
  refine Eq.trans ?_ (get_init _ k).symm
  exact congrArg some hblock.symm

section
variable (prevBlock refBlock next scratch : Block)

/-- The words of `R` in a column. -/
def columnValues (i : Fin 8) : Vector U64 16 :=
  Vector.ofFn fun j => refBlock.get (columnWord i j) ^^^ prevBlock.get (columnWord i j)

lemma foldl_columnStep_pair (withXor : Bool) :
    ((List.finRange 8).foldl (Argon2.columnStep withXor prevBlock refBlock) (next, scratch)) =
      ((List.finRange 8).foldl (fun words i =>
          if withXor then Argon2.xorWords words (columnWord i) (columnValues prevBlock refBlock i)
          else Argon2.writeWords words (columnWord i) (columnValues prevBlock refBlock i)) next,
        (List.finRange 8).foldl (fun words i => Argon2.writeWords words (columnWord i)
          (p (columnValues prevBlock refBlock i))) scratch) := by
  rw [← foldl_prod]
  rfl

/-- The first loop initialises the scratch block, and a destination that is overwritten. -/
lemma foldlM_columnStep_write (cell : Cell) :
    (List.finRange 8).foldlM (columnStep false prevBlock refBlock) (cell, uninit) =
      some (((List.finRange 8).foldl (Argon2.columnStep false prevBlock refBlock)
        (next, scratch)).map init init) := by
  have hloop : (List.finRange 8).foldlM (columnStep false prevBlock refBlock) (cell, uninit) =
      some ((List.finRange 8).foldl (fun words i =>
          writeWords words (columnWord i) (columnValues prevBlock refBlock i)) cell,
        (List.finRange 8).foldl (fun words i =>
          writeWords words (columnWord i) (p (columnValues prevBlock refBlock i))) uninit) := by
    rw [← foldl_prod]
    exact foldlM_eq_foldl id (fun _ _ => rfl) _ _
  rw [hloop, foldl_columnStep_pair, foldl_writeWords_columns _ cell next,
    foldl_writeWords_columns _ uninit scratch]
  rfl

lemma columnStep_init (words : Block) (cell : Cell) (i : Fin 8) :
    columnStep true prevBlock refBlock (init words, cell) i =
      some (init (Argon2.xorWords words (columnWord i) (columnValues prevBlock refBlock i)),
        writeWords cell (columnWord i) (p (columnValues prevBlock refBlock i))) := by
  have hvalues : (Vector.ofFn fun j =>
      refBlock.get (columnWord i j) ^^^ prevBlock.get (columnWord i j)) =
        columnValues prevBlock refBlock i := rfl
  rw [columnStep, if_pos rfl, hvalues, xorWords_init]
  rfl

lemma foldlM_columnStep_init (l : List (Fin 8)) (words : Block) (cell : Cell) :
    l.foldlM (columnStep true prevBlock refBlock) (init words, cell) =
      some (init (l.foldl (fun words i =>
          Argon2.xorWords words (columnWord i) (columnValues prevBlock refBlock i)) words),
        l.foldl (fun cell i =>
          writeWords cell (columnWord i) (p (columnValues prevBlock refBlock i))) cell) := by
  induction l generalizing words cell with
  | nil => rfl
  | cons i l ih =>
    rw [List.foldlM_cons, columnStep_init, Option.bind_eq_bind, Option.bind_some, ih,
      List.foldl_cons, List.foldl_cons]

/-- The first loop on a destination that is updated. -/
lemma foldlM_columnStep_xor :
    (List.finRange 8).foldlM (columnStep true prevBlock refBlock) (init next, uninit) =
      some (((List.finRange 8).foldl (Argon2.columnStep true prevBlock refBlock)
        (next, scratch)).map init init) := by
  rw [foldlM_columnStep_init, foldl_columnStep_pair, foldl_writeWords_columns _ uninit scratch]
  rfl

lemma rowStep_init (blockRWords : Block) (i : Fin 8) :
    rowStep (init blockRWords) (init next) i = some (init (Argon2.rowStep blockRWords next i)) := by
  rw [rowStep, readWords_init, Option.bind_eq_bind, Option.bind_some, xorWords_init]
  rfl

lemma fillBlockRaw_of_columns {withXor : Bool} {cell : Cell}
    (h : (List.finRange 8).foldlM (columnStep withXor prevBlock refBlock) (cell, uninit) =
      some (((List.finRange 8).foldl (Argon2.columnStep withXor prevBlock refBlock)
        (next, scratch)).map init init)) :
    fillBlockRaw withXor prevBlock refBlock cell =
      some (init (Argon2.fillBlockRaw withXor prevBlock refBlock next scratch)) := by
  rw [fillBlockRaw, h, Option.bind_eq_bind, Option.bind_some]
  exact foldlM_eq_foldl init (fun words i => rowStep_init words _ i) _ _

/-- Without the xor, the destination is initialised whatever it held, and not read before. -/
lemma fillBlockRaw_write (cell : Cell) :
    fillBlockRaw false prevBlock refBlock cell =
      some (init (Argon2.fillBlockRaw false prevBlock refBlock next scratch)) :=
  fillBlockRaw_of_columns _ _ _ _ (foldlM_columnStep_write prevBlock refBlock next scratch cell)

lemma fillBlockRaw_xor :
    fillBlockRaw true prevBlock refBlock (init next) =
      some (init (Argon2.fillBlockRaw true prevBlock refBlock next scratch)) :=
  fillBlockRaw_of_columns _ _ _ _ (foldlM_columnStep_xor prevBlock refBlock next scratch)

end

end Cell

/-! ## The lane -/

namespace Cells

/-- The lane with the blocks below the bound written, and nothing else. -/
def written (blocks : Memory) (bound : ℕ) : Cells :=
  Vector.ofFn fun k => if k < bound then Cell.init (blocks.get k) else Cell.uninit

section
variable {blocks : Memory} {bound k : ℕ}

lemma getElem?_written (hk : k < randomxLaneLength) :
    (written blocks bound)[k]? =
      some (if k < bound then Cell.init (blocks.get ⟨k, hk⟩) else Cell.uninit) := by
  rw [Vector.getElem?_eq_getElem hk, written, Vector.getElem_ofFn hk]

lemma read_written (hk : k < randomxLaneLength) (hlt : k < bound) :
    (written blocks bound).read k = some (blocks.get ⟨k, hk⟩) := by
  rw [read, getElem?_written hk, if_pos hlt]
  exact Cell.assumeInit_init _

lemma written_iff (hk : k < randomxLaneLength) :
    (written blocks bound).Written k ↔ k < bound := by
  unfold Written
  rw [getElem?_written hk]
  constructor
  · rintro ⟨cell, block, hcell, hblock⟩
    by_contra hlt
    rw [if_neg hlt] at hcell
    cases hcell
    rw [Cell.assumeInit_uninit] at hblock
    cases hblock
  · intro hlt
    rw [if_pos hlt]
    exact ⟨_, _, rfl, Cell.assumeInit_init _⟩

/-- Writing a block moves the bound past it. -/
lemma setIfInBounds_written {bound' curr : ℕ} {block : Block} (hcurr : curr < bound')
    (hbound : ∀ k, k ≠ curr → k < randomxLaneLength → (k < bound' ↔ k < bound)) :
    (written blocks bound).setIfInBounds curr (Cell.init block) =
      written (blocks.setIfInBounds curr block) bound' := by
  apply Vector.ext
  intro k hk
  rw [Vector.getElem_setIfInBounds hk, written, written, Vector.getElem_ofFn hk,
    Vector.getElem_ofFn hk]
  by_cases hkc : curr = k
  · subst hkc
    rw [if_pos rfl, if_pos hcurr]
    exact congrArg Cell.init (Vector.getElem_setIfInBounds_self hk).symm
  · rw [if_neg hkc]
    have hget : (blocks.setIfInBounds curr block).get ⟨k, hk⟩ = blocks.get ⟨k, hk⟩ :=
      Vector.getElem_setIfInBounds_ne hk hkc
    rw [hget]
    exact if_congr (hbound k (Ne.symm hkc) hk).symm rfl rfl

lemma replicate_eq_written (blocks : Memory) :
    Vector.replicate randomxLaneLength Cell.uninit = written blocks 0 := by
  apply Vector.ext
  intro k hk
  rw [Vector.getElem_replicate hk, written, Vector.getElem_ofFn hk]
  rfl

/-- An allocation in which only the first two blocks are written. -/
lemma start_eq_written (blocks : Memory) (block₀ block₁ : Block) :
    ((Vector.replicate randomxLaneLength Cell.uninit).setIfInBounds 0
        (Cell.init block₀)).setIfInBounds 1 (Cell.init block₁) =
      written ((blocks.set 0 block₀ (by decide)).set 1 block₁ (by decide)) 2 := by
  have hset : (blocks.set 0 block₀ (by decide)).set 1 block₁ (by decide) =
      (blocks.setIfInBounds 0 block₀).setIfInBounds 1 block₁ := by
    apply Vector.ext
    intro k hk
    rw [Vector.getElem_set, Vector.getElem_set, Vector.getElem_setIfInBounds hk,
      Vector.getElem_setIfInBounds hk]
  have hfirst : (written blocks 0).setIfInBounds 0 (Cell.init block₀) =
      written (blocks.setIfInBounds 0 block₀) 1 := by
    apply setIfInBounds_written Nat.one_pos
    intro k hne _
    omega
  rw [hset, replicate_eq_written blocks, hfirst]
  apply setIfInBounds_written Nat.one_lt_two
  intro k hne _
  omega

lemma init_eq_written (blocks : Memory) : init blocks = written blocks randomxLaneLength := by
  apply Vector.ext
  intro k hk
  rw [init, Vector.getElem_map, written, Vector.getElem_ofFn hk, if_pos hk]
  rfl

lemma assumeInit_init (blocks : Memory) : (init blocks).assumeInit = some blocks := by
  have hid : Cell.assumeInit ∘ Cell.init = fun block => pure (id block) :=
    funext Cell.assumeInit_init
  rw [assumeInit, init, Vector.mapM_map, hid, Vector.mapM_pure, Vector.map_id]
  rfl

end

end Cells

/-! ## The iterations -/

/-- What holds of an iteration: safe offsets, inputs that are written, and a written part of the
lane that is the blocks before the current one and then the current one too, in the first pass,
and everything later. -/
structure Access.Safe (access : Access) : Prop where
  offsets : SafeOffsets access.firstPass access.slice access.prevOffset access.refOffset
    access.currOffset
  prev_written : access.before.Written access.prevOffset
  ref_written : access.before.Written access.refOffset
  before_iff : ∀ k < randomxLaneLength,
    (access.before.Written k ↔ (access.firstPass → k < access.currOffset))
  after_iff : ∀ k < randomxLaneLength,
    (access.after.Written k ↔ (access.firstPass → k < access.currOffset + 1))

/-- The record of safe iterations at the given positions, in order. -/
structure Records (trace : List Access) (positions : List (Bool × ℕ)) : Prop where
  positions_eq : trace.map (fun access => (access.firstPass, access.currOffset)) = positions
  safe : ∀ access ∈ trace, access.Safe

lemma Records.concat {trace : List Access} {positions : List (Bool × ℕ)} {access : Access}
    (h : Records trace positions) (hsafe : access.Safe) :
    Records (trace ++ [access]) (positions ++ [(access.firstPass, access.currOffset)]) := by
  constructor
  · rw [List.map_append, h.positions_eq]
    rfl
  · intro access' hmem
    rcases List.mem_append.mp hmem with hmem | hmem
    · exact h.safe access' hmem
    · rw [List.mem_singleton.mp hmem]
      exact hsafe

/-- An iteration whose inputs are written and whose offsets are safe. -/
lemma Filling.segmentStep_eq {firstPass withXor : Bool} {slice segmentStart prev ref curr : ℕ}
    {cells : Cells} {prevBlock refBlock : Block} {cell next : Cell} (trace : List Access)
    (hprev : cells.read prev = some prevBlock)
    (href : checkedRefOffset firstPass slice segmentStart curr prevBlock[0] = some ref)
    (hrefBlock : cells.read ref = some refBlock) (hcurr : cells[curr]? = some cell)
    (hsafe : SafeOffsets firstPass slice prev ref curr)
    (hnext : Cell.fillBlockRaw withXor prevBlock refBlock cell = some next) :
    Filling.segmentStep firstPass withXor slice segmentStart ⟨cells, prev, trace⟩ curr = some {
      cells := cells.setIfInBounds curr next
      prevOffset := curr
      trace := trace ++ [{
        firstPass, slice
        refOffset := ref
        currOffset := curr
        prevOffset := prev
        before := cells
        after := cells.setIfInBounds curr next }] } := by
  have hword : prevBlock[0]? = some prevBlock[0] := by simp
  unfold Filling.segmentStep
  simp only [hprev, hword, href, hrefBlock, hcurr, hsafe.inputsAllowed, hnext,
    Option.bind_eq_bind, Option.bind_some, if_true, Option.pure_def]

lemma lt_agreementBound {firstPass : Bool} {current k : ℕ} (hk : k < randomxLaneLength) :
    k < agreementBound firstPass current ↔ (firstPass → k < current) := by
  cases firstPass with
  | true => simp [agreementBound]
  | false => simpa [agreementBound] using hk

lemma lt_agreementBound_succ {firstPass : Bool} {current : ℕ} (hk : current < randomxLaneLength) :
    current < agreementBound firstPass (current + 1) :=
  (lt_agreementBound hk).mpr fun _ => Nat.lt_succ_self current

/-- The current block is the one that joins the bound. -/
lemma lt_agreementBound_succ_iff {firstPass : Bool} {current k : ℕ} (hne : k ≠ current)
    (hk : k < randomxLaneLength) :
    k < agreementBound firstPass (current + 1) ↔ k < agreementBound firstPass current := by
  rw [lt_agreementBound hk, lt_agreementBound hk]
  have hiff : k < current + 1 ↔ k < current := by omega
  rw [hiff]

section
variable {firstPass : Bool} {pass slice index : ℕ} (scratch : Block)

/-- The destination is overwritten in the first pass, and updated later. -/
lemma fillBlockRaw_written (prevBlock refBlock next : Block) {current : ℕ}
    (hcurr : current < randomxLaneLength) :
    Cell.fillBlockRaw (!firstPass) prevBlock refBlock
        (if current < agreementBound firstPass current then Cell.init next else Cell.uninit) =
      some (Cell.init (fillBlockRaw (!firstPass) prevBlock refBlock next scratch)) := by
  cases firstPass with
  | true => exact Cell.fillBlockRaw_write prevBlock refBlock next scratch _
  | false =>
    rw [if_pos ((lt_agreementBound hcurr).mpr fun hfirst => absurd hfirst Bool.false_ne_true)]
    exact Cell.fillBlockRaw_xor prevBlock refBlock next scratch

/-- An iteration of the checked loop goes through, next to the unchecked one. -/
lemma segmentStep_written (h : InLoop firstPass pass slice index) (blocks : Memory)
    (trace : List Access) :
    let current := slice * segmentLength + index
    ∃ blocks' access,
      segmentStep scratch firstPass (!firstPass) slice (blocks, previousOffset current) current =
        some (blocks', current) ∧
      Filling.segmentStep firstPass (!firstPass) slice (slice * segmentLength)
        ⟨Cells.written blocks (agreementBound firstPass current), previousOffset current, trace⟩
        current =
          some ⟨Cells.written blocks' (agreementBound firstPass (current + 1)), current,
            trace ++ [access]⟩ ∧
      access.Safe ∧ access.firstPass = firstPass ∧ access.currOffset = current := by
  dsimp only
  have hsafe := fun block : Block => h.safeOffsets block[0]
  have hchecked := fun block : Block => h.checkedRefOffset_eq block[0]
  have hoffset := fun block : Block => h.toNat_refOffset block[0]
  have hprev := (h.safeOffsets 0).prev_lt
  obtain ⟨prevBlock, hprevBlock⟩ :
      ∃ block, blocks.get ⟨previousOffset (slice * segmentLength + index), hprev⟩ = block :=
    ⟨_, rfl⟩
  specialize hsafe prevBlock
  specialize hchecked prevBlock
  specialize hoffset prevBlock
  -- from here on only what the offsets satisfy matters, not how they are computed
  generalize slice * segmentLength + index = current at *
  generalize Textbook.referenceIndex segmentLength pass slice index _ = ref at *
  -- both blocks that are read were written before, in the first pass as well
  have hprevLt : previousOffset current < agreementBound firstPass current :=
    (lt_agreementBound hprev).mpr fun hfirst => (hsafe.firstPass_earlier hfirst).1
  have hrefLt : ref < agreementBound firstPass current :=
    (lt_agreementBound hsafe.ref_lt).mpr fun hfirst => (hsafe.firstPass_earlier hfirst).2
  have hprevBlock? : blocks[previousOffset current]? = some prevBlock := by
    rw [Vector.getElem?_eq_getElem hprev]
    exact congrArg some hprevBlock
  have hstep := segmentStep_eq scratch (!firstPass) hprevBlock? hoffset
    (Vector.getElem?_eq_getElem hsafe.ref_lt) (Vector.getElem?_eq_getElem hsafe.curr_lt) hsafe
  have hprevWritten : (Cells.written blocks (agreementBound firstPass current)).Written
      (previousOffset current) := (Cells.written_iff hprev).mpr hprevLt
  have hrefWritten : (Cells.written blocks (agreementBound firstPass current)).Written ref :=
    (Cells.written_iff hsafe.ref_lt).mpr hrefLt
  let blocks' := blocks.setIfInBounds current (fillBlockRaw (!firstPass) prevBlock
    (blocks.get ⟨ref, hsafe.ref_lt⟩) (blocks.get ⟨current, hsafe.curr_lt⟩) scratch)
  refine ⟨blocks', {
      firstPass, slice
      prevOffset := previousOffset current
      refOffset := ref
      currOffset := current
      before := Cells.written blocks (agreementBound firstPass current)
      after := Cells.written blocks' (agreementBound firstPass (current + 1)) },
    hstep, ?_, ?_, rfl, rfl⟩
  · have hread : (Cells.written blocks (agreementBound firstPass current)).read
        (previousOffset current) = some prevBlock := by
      rw [Cells.read_written hprev hprevLt, hprevBlock]
    rw [Filling.segmentStep_eq trace hread hchecked (Cells.read_written hsafe.ref_lt hrefLt)
      (Cells.getElem?_written hsafe.curr_lt) hsafe
      (fillBlockRaw_written scratch _ _ _ hsafe.curr_lt),
      Cells.setIfInBounds_written (lt_agreementBound_succ hsafe.curr_lt)
        fun _ => lt_agreementBound_succ_iff]
  · exact {
      offsets := hsafe
      prev_written := hprevWritten
      ref_written := hrefWritten
      before_iff := fun _ hk => (Cells.written_iff hk).trans (lt_agreementBound hk)
      after_iff := fun _ hk => (Cells.written_iff hk).trans (lt_agreementBound hk) }

/-! ## The loops -/

lemma Filling.fillMemoryBlocksRandomxSegment_eq {withXor : Bool} (hslice : slice < 4)
    (cells : Cells) (trace : List Access) :
    Filling.fillMemoryBlocksRandomxSegment firstPass withXor slice (cells, trace) =
      ((List.range' (firstOffset firstPass slice)
        (segmentLength - firstIndex firstPass slice)).foldlM
          (Filling.segmentStep firstPass withXor slice (slice * segmentLength))
          ⟨cells, previousOffset (firstOffset firstPass slice), trace⟩).map
            fun state => (state.cells, state.trace) := by
  have hfirst := firstIndex_lt firstPass slice
  have hlen : slice * segmentLength + segmentLength - firstOffset firstPass slice =
      segmentLength - firstIndex firstPass slice := by
    unfold firstOffset
    omega
  have hmul : checkedMul 32 slice segmentLength = some (slice * segmentLength) := by
    apply checkedMul_eq
    unfold segmentLength
    omega
  have hend : checkedAdd 32 (slice * segmentLength) segmentLength =
      some (slice * segmentLength + segmentLength) := by
    apply checkedAdd_eq
    unfold segmentLength
    omega
  have hstart : checkedAdd 32 (slice * segmentLength) (firstIndex firstPass slice) =
      some (firstOffset firstPass slice) := by
    apply checkedAdd_eq
    unfold segmentLength at *
    omega
  unfold firstIndex at hstart
  unfold Filling.fillMemoryBlocksRandomxSegment
  simp only [hmul, hend, hstart, Option.bind_eq_bind, Option.bind_some, hlen,
    toNat_prevOffset (firstOffset_lt hslice)]
  rw [Option.map_eq_bind]
  rfl

/-- The positions of a segment loop. -/
def segmentPositions (firstPass : Bool) (slice : ℕ) : List (Bool × ℕ) :=
  (List.range' (firstOffset firstPass slice) (segmentLength - firstIndex firstPass slice)).map
    fun k => (firstPass, k)

/-- A checked segment loop goes through, next to the unchecked one. -/
lemma fillMemoryBlocksRandomxSegment_written (hslice : slice < 4) (blocks : Memory)
    {trace : List Access} {positions : List (Bool × ℕ)} (h : Records trace positions) :
    ∃ blocks' trace',
      fillMemoryBlocksRandomxSegment scratch firstPass (!firstPass) slice blocks = some blocks' ∧
      Filling.fillMemoryBlocksRandomxSegment firstPass (!firstPass) slice
        (Cells.written blocks (agreementBound firstPass (firstOffset firstPass slice)), trace) =
          some (Cells.written blocks' (agreementBound firstPass ((slice + 1) * segmentLength)),
            trace') ∧
      Records trace' (positions ++ segmentPositions firstPass slice) := by
  have hpass : firstPass = true ↔ (if firstPass then 0 else 1) = 0 := by
    cases firstPass <;> simp
  -- the invariant before the block at `k` is computed
  let invariant (k : ℕ) (state : Memory × ℕ) (filling : Filling) : Prop :=
    firstOffset firstPass slice ≤ k ∧ state.2 = previousOffset k ∧
      ∃ trace', filling = ⟨Cells.written state.1 (agreementBound firstPass k),
        previousOffset k, trace'⟩ ∧
        Records trace' (positions ++ (List.range' (firstOffset firstPass slice)
          (k - firstOffset firstPass slice)).map fun k => (firstPass, k))
  have hend : firstOffset firstPass slice + (segmentLength - firstIndex firstPass slice) =
      (slice + 1) * segmentLength := by
    have hfirst := firstIndex_lt firstPass slice
    unfold firstOffset
    rw [Nat.add_mul]
    omega
  have init : invariant (firstOffset firstPass slice)
      (blocks, previousOffset (firstOffset firstPass slice))
      ⟨Cells.written blocks (agreementBound firstPass (firstOffset firstPass slice)),
        previousOffset (firstOffset firstPass slice), trace⟩ := by
    refine ⟨le_rfl, rfl, trace, rfl, ?_⟩
    rw [Nat.sub_self, List.range'_zero, List.map_nil, List.append_nil]
    exact h
  have loop := foldlM_range'_lockstep (n := segmentLength - firstIndex firstPass slice)
    (f := segmentStep scratch firstPass (!firstPass) slice)
    (g := Filling.segmentStep firstPass (!firstPass) slice (slice * segmentLength))
    (P := invariant) ?step init
  case step =>
    intro k state filling hk hk' ⟨_, hprev, trace', hstate, hrecords⟩
    obtain ⟨index, rfl, hloop⟩ := inLoop_of_firstOffset_le hpass hslice hk (hend ▸ hk')
    obtain ⟨blocks', access, hstep, hfilling, hsafe, hfirst, hcurr⟩ :=
      segmentStep_written scratch hloop state.1 trace'
    rw [← hprev] at hstep
    rw [← hstate] at hfilling
    have hprevious := (previousOffset_succ (hloop.safeOffsets 0).curr_lt).symm
    refine ⟨_, _, hstep, hfilling, Nat.le_succ_of_le hk, hprevious, trace' ++ [access], ?_, ?_⟩
    · rw [← hprevious]
    · have hconcat := hrecords.concat hsafe
      rw [hfirst, hcurr, List.append_assoc] at hconcat
      rw [show slice * segmentLength + index + 1 - firstOffset firstPass slice =
          slice * segmentLength + index - firstOffset firstPass slice + 1 by omega,
        List.range'_concat, List.map_append, List.map_singleton, Nat.one_mul,
        Nat.add_sub_cancel' hk]
      exact hconcat
  obtain ⟨state, filling, hrun, hfilling, -, -, trace', hstate, hrecords⟩ := loop
  refine ⟨state.1, trace', ?_, ?_, ?_⟩
  · rw [fillMemoryBlocksRandomxSegment_eq scratch hslice, hrun]
    rfl
  · rw [Filling.fillMemoryBlocksRandomxSegment_eq hslice, hfilling, hstate, hend]
    rfl
  · rw [Nat.add_sub_cancel_left] at hrecords
    exact hrecords

/-- The positions of a pass: the whole lane, or in the first pass all but two blocks of it. -/
def passPositions (firstPass : Bool) : List (Bool × ℕ) :=
  let first := if firstPass then 2 else 0
  (List.range' first (randomxLaneLength - first)).map fun k => (firstPass, k)

lemma passPositions_eq (firstPass : Bool) :
    passPositions firstPass = segmentPositions firstPass 0 ++ segmentPositions firstPass 1 ++
      segmentPositions firstPass 2 ++ segmentPositions firstPass 3 := by
  have hjoin : ∀ {a n b : ℕ} (m : ℕ), a + n = b →
      List.range' a n ++ List.range' b m = List.range' a (n + m) := by
    rintro a n _ m rfl
    exact List.range'_append_1
  have hfirst : (if firstPass then 2 else 0) = firstOffset firstPass 0 := by
    cases firstPass <;> rfl
  have hlt := firstIndex_lt firstPass 0
  have hzero : firstOffset firstPass 0 = firstIndex firstPass 0 := by simp [firstOffset]
  have hindex : ∀ slice, firstIndex firstPass (slice + 1) = 0 := by simp [firstIndex]
  have hlane : randomxLaneLength = 4 * segmentLength := rfl
  unfold passPositions segmentPositions
  simp only [← List.map_append, hindex, firstOffset_succ, hfirst]
  rw [hjoin _ (by omega), hjoin _ (by omega), hjoin _ (by omega), hlane]
  congr 2
  omega

/-- A checked pass goes through, next to the unchecked one, and leaves the lane written. -/
lemma fillMemoryBlocksRandomxPass_written (firstPass : Bool) (blocks : Memory)
    {trace : List Access} {positions : List (Bool × ℕ)} (h : Records trace positions) :
    ∃ blocks' trace',
      fillMemoryBlocksRandomxPass scratch firstPass (!firstPass) blocks = some blocks' ∧
      Filling.fillMemoryBlocksRandomxPass firstPass (!firstPass)
        (Cells.written blocks (agreementBound firstPass 2), trace) =
          some (Cells.written blocks' randomxLaneLength, trace') ∧
      Records trace' (positions ++ passPositions firstPass) := by
  have hend : agreementBound firstPass ((3 + 1) * segmentLength) = randomxLaneLength := by
    cases firstPass <;> rfl
  obtain ⟨blocks₀, trace₀, hrun₀, hfilling₀, h₀⟩ :=
    fillMemoryBlocksRandomxSegment_written scratch (by norm_num : 0 < 4) blocks h
  obtain ⟨blocks₁, trace₁, hrun₁, hfilling₁, h₁⟩ :=
    fillMemoryBlocksRandomxSegment_written scratch (by norm_num : 1 < 4) blocks₀ h₀
  obtain ⟨blocks₂, trace₂, hrun₂, hfilling₂, h₂⟩ :=
    fillMemoryBlocksRandomxSegment_written scratch (by norm_num : 2 < 4) blocks₁ h₁
  obtain ⟨blocks₃, trace₃, hrun₃, hfilling₃, h₃⟩ :=
    fillMemoryBlocksRandomxSegment_written scratch (by norm_num : 3 < 4) blocks₂ h₂
  rw [firstOffset_succ] at hfilling₁ hfilling₂ hfilling₃
  rw [agreementBound_firstOffset_zero] at hfilling₀
  rw [hend] at hfilling₃
  refine ⟨blocks₃, trace₃, ?_, ?_, ?_⟩
  · unfold fillMemoryBlocksRandomxPass
    rw [hrun₀, Option.bind_eq_bind, Option.bind_some, hrun₁, Option.bind_some, hrun₂,
      Option.bind_some, hrun₃]
  · unfold Filling.fillMemoryBlocksRandomxPass
    rw [hfilling₀, Option.bind_eq_bind, Option.bind_some, hfilling₁, Option.bind_some, hfilling₂,
      Option.bind_some, hfilling₃]
  · rw [passPositions_eq]
    simpa only [List.append_assoc] using h₃

end

/-! ## The whole memory -/

lemma Records.nil : Records [] [] := ⟨rfl, nofun⟩

lemma firstPass_records (scratch : Block) (uninit : Memory) (block₀ block₁ : Block) :
    ∃ blocks trace,
      fillMemoryBlocksRandomxPass scratch true false
        ((uninit.set 0 block₀ (by decide)).set 1 block₁ (by decide)) = some blocks ∧
      Filling.fillMemoryBlocksRandomxPass true false
        (((Vector.replicate randomxLaneLength Cell.uninit).setIfInBounds 0
          (Cell.init block₀)).setIfInBounds 1 (Cell.init block₁), []) =
        some (Cells.init blocks, trace) ∧
      Records trace (passPositions true) := by
  obtain ⟨blocks, trace, hrun, hfilling, h⟩ := fillMemoryBlocksRandomxPass_written scratch true
    ((uninit.set 0 block₀ (by decide)).set 1 block₁ (by decide)) Records.nil
  have hbound : agreementBound true 2 = 2 := rfl
  rw [List.nil_append] at h
  rw [Bool.not_true, hbound, ← Cells.start_eq_written, ← Cells.init_eq_written] at hfilling
  exact ⟨blocks, trace, hrun, hfilling, h⟩

lemma laterPass_records (scratch : Block) (blocks : Memory) {trace : List Access}
    {positions : List (Bool × ℕ)} (h : Records trace positions) :
    ∃ blocks' trace', fillMemoryBlocksRandomxPass scratch false true blocks = some blocks' ∧
      Filling.fillMemoryBlocksRandomxPass false true (Cells.init blocks, trace) =
        some (Cells.init blocks', trace') ∧
      Records trace' (positions ++ passPositions false) := by
  obtain ⟨blocks', trace', hrun, hfilling, h'⟩ :=
    fillMemoryBlocksRandomxPass_written scratch false blocks h
  have hbound : agreementBound false 2 = randomxLaneLength := rfl
  rw [Bool.not_false, hbound, ← Cells.init_eq_written, ← Cells.init_eq_written] at hfilling
  exact ⟨blocks', trace', hrun, hfilling, h'⟩

/-- The checked run returns, with what the unchecked one computes. -/
lemma initializeRandomx_records (blake2b : (len : ℕ) → List U8 → Vector U8 len) (key : List U8)
    (scratch : Block) (uninit : Memory) :
    ∃ memory trace, Filling.initializeRandomx blake2b key = some (memory, trace) ∧
      initializeRandomx scratch blake2b uninit key = some memory ∧
      Records trace (passPositions true ++ passPositions false ++ passPositions false) := by
  obtain ⟨blocks₁, trace₁, hrun₁, hfilling₁, h₁⟩ := firstPass_records scratch uninit
    (seedBlock blake2b (initialHash blake2b key) 0) (seedBlock blake2b (initialHash blake2b key) 1)
  obtain ⟨blocks₂, trace₂, hrun₂, hfilling₂, h₂⟩ := laterPass_records scratch blocks₁ h₁
  obtain ⟨blocks₃, trace₃, hrun₃, hfilling₃, h₃⟩ := laterPass_records scratch blocks₂ h₂
  refine ⟨blocks₃, trace₃, ?_, ?_, h₃⟩
  · unfold Filling.initializeRandomx
    simp only [hfilling₁, hfilling₂, hfilling₃, Cells.assumeInit_init, Option.bind_eq_bind,
      Option.bind_some, Option.pure_def]
  · unfold initializeRandomx
    dsimp only
    rw [hrun₁, Option.bind_eq_bind, Option.bind_some, hrun₂, Option.bind_some, hrun₃]

/-- The offsets are safe for every pseudo-random word, and the formula stays in its types. Every
iteration of `initialize_randomx` keeps to them: the first pass reads blocks that are written and
writes one more, up to the whole lane, and the later passes work on a lane that is all written. -/
theorem initializeRandomx_safe (blake2b : (len : ℕ) → List U8 → Vector U8 len) (key : List U8) :
    (∀ (firstPass : Bool) slice index pseudoRand, slice < syncPoints → index < segmentLength →
      (firstPass → 2 ≤ slice * segmentLength + index) →
      ∃ ref,
        checkedRefOffset firstPass slice (slice * segmentLength) (slice * segmentLength + index)
          pseudoRand = some ref ∧
        (refOffset firstPass slice (slice * segmentLength + index) pseudoRand).toNat = ref ∧
        SafeOffsets firstPass slice (previousOffset (slice * segmentLength + index)) ref
          (slice * segmentLength + index)) ∧
    ∃ memory trace, Filling.initializeRandomx blake2b key = some (memory, trace) ∧
      (∀ scratch uninit, initializeRandomx scratch blake2b uninit key = some memory) ∧
      Records trace (passPositions true ++ passPositions false ++ passPositions false) := by
  constructor
  · intro firstPass slice index pseudoRand hslice hindex htwo
    have hloop : InLoop firstPass (if firstPass then 0 else 1) slice index :=
      ⟨by cases firstPass <;> simp, hslice, hindex, htwo⟩
    exact ⟨_, hloop.checkedRefOffset_eq pseudoRand, hloop.toNat_refOffset pseudoRand,
      hloop.safeOffsets pseudoRand⟩
  · obtain ⟨memory, trace, hchecked, -, hrecords⟩ := initializeRandomx_records blake2b key
      Block.zero (Vector.replicate randomxLaneLength Block.zero)
    refine ⟨memory, trace, hchecked, ?_, hrecords⟩
    intro scratch uninit
    obtain ⟨memory', trace', hchecked', hrun, -⟩ :=
      initializeRandomx_records blake2b key scratch uninit
    obtain rfl : memory = memory' :=
      (Prod.ext_iff.mp (Option.some.inj (hchecked.symm.trans hchecked'))).1
    exact hrun

end RandomXSp1.Argon2
