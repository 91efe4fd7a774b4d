import RandomXSp1.Loops
import RandomXSp1.Argon2.Core
import RandomXSp1.Argon2.Textbook

/-!
# The fixed Argon2d memory is the textbook's

The fused compression writes `P(R) ⊕ R` over whatever was in the destination, or xors it into
the old block; the specialised segment loops pick the blocks that the modular formula picks.
The first pass keeps the prefix it has written equal to the textbook memory, the later passes
keep the whole lane equal.
-/

namespace RandomXSp1.Argon2

/-! ## The permutation -/

lemma and_mask_eq_trunc (x : U64) : x &&& 0xFFFFFFFF#64 = Textbook.trunc x := by
  apply BitVec.eq_of_toNat_eq
  rw [Textbook.trunc, BitVec.toNat_and, BitVec.toNat_setWidth, BitVec.toNat_setWidth]
  show x.toNat &&& (2 ^ 32 - 1) = x.toNat % 2 ^ 32 % 2 ^ 64
  rw [Nat.and_two_pow_sub_one_eq_mod]
  omega

lemma fBlaMka_eq (x y : U64) :
    fBlaMka x y = x + y + 2 * Textbook.trunc x * Textbook.trunc y := by
  show x + (y + ((x &&& 0xFFFFFFFF#64) * (y &&& 0xFFFFFFFF#64)
    + (x &&& 0xFFFFFFFF#64) * (y &&& 0xFFFFFFFF#64))) = _
  rw [and_mask_eq_trunc, and_mask_eq_trunc]
  ring

lemma g_eq_gb (a b c d : U64) : g a b c d = Textbook.gb a b c d := by
  unfold g Textbook.gb rotr64
  simp only [fBlaMka_eq]

lemma p_eq_permutation (v : Vector U64 16) : p v = Textbook.permutation v := by
  unfold p Textbook.permutation Textbook.quadruples gAt
  simp only [g_eq_gb, List.foldl_cons, List.foldl_nil]

/-! ## Compression -/

lemma columnWord_injective :
    Function.Injective fun ij : Fin 8 × Fin 16 => columnWord ij.1 ij.2 := by
  intro ⟨i, j⟩ ⟨i', j'⟩ h
  have h : 16 * (i : ℕ) + j = 16 * i' + j' := congrArg Fin.val h
  ext <;> simp only <;> omega

lemma rowWord_injective : Function.Injective fun ij : Fin 8 × Fin 16 => rowWord ij.1 ij.2 := by
  intro ⟨i, j⟩ ⟨i', j'⟩ h
  have h : 2 * (i : ℕ) + 16 * (j / 2) + j % 2 = 2 * i' + 16 * (j' / 2) + j' % 2 :=
    congrArg Fin.val h
  ext <;> simp only <;> omega

lemma columnWord_rowOf (k : Fin qwordsInBlock) :
    columnWord (Textbook.rowOf k).1 (Textbook.rowOf k).2 = k := by
  ext
  show 16 * (k / 16 : ℕ) + k % 16 = k
  omega

lemma rowWord_columnOf (k : Fin qwordsInBlock) :
    rowWord (Textbook.columnOf k).1 (Textbook.columnOf k).2 = k := by
  ext
  show 2 * (k / 2 % 8 : ℕ) + 16 * ((2 * (k / 16) + k % 2) / 2) + (2 * (k / 16) + k % 2) % 2 = k
  omega

lemma columnWord_eq_row (i : Fin 8) (j : Fin 16) : columnWord i j = Textbook.row i j := by
  ext
  show 16 * (i : ℕ) + j = 2 * (8 * i + j / 2) + j % 2
  omega

lemma rowWord_eq_column (i : Fin 8) (j : Fin 16) : rowWord i j = Textbook.column i j := by
  ext
  show 2 * (i : ℕ) + 16 * (j / 2) + j % 2 = 2 * (8 * (j / 2) + i) + j % 2
  omega

/-- A loop over the eight columns, then their words, visits every word once. -/
lemma getElem_foldl_columns {α : Type*} (update : Fin 8 × Fin 16 → α → α)
    (position : Fin 8 × Fin 16 → Fin qwordsInBlock) (hinj : Function.Injective position)
    (words : Vector α qwordsInBlock) (ij : Fin 8 × Fin 16) :
    ((List.finRange 8).foldl (fun words i => scatter (fun j => update (i, j))
      (fun j => position (i, j)) (List.finRange 16) words) words)[position ij]
      = update ij words[position ij] := by
  rw [foldl_scatter]
  apply getElem_scatter
  · exact (List.nodup_finRange 8).product (List.nodup_finRange 16)
  · exact hinj
  · exact List.pair_mem_product.mpr ⟨List.mem_finRange ij.1, List.mem_finRange ij.2⟩

lemma getElem_xorBlocks (x y : Block) (k : Fin qwordsInBlock) :
    (Textbook.xorBlocks x y)[k] = x[k] ^^^ y[k] := by
  unfold Textbook.xorBlocks
  exact Vector.getElem_ofFn k.isLt

lemma getElem_permuteRows (r : Block) (k : Fin qwordsInBlock) :
    (Textbook.permuteRows r)[k] = (Textbook.permutation (Vector.ofFn fun j =>
      r[Textbook.row (Textbook.rowOf k).1 j]))[(Textbook.rowOf k).2] := by
  unfold Textbook.permuteRows
  exact Vector.getElem_ofFn k.isLt

lemma getElem_permuteColumns (q : Block) (k : Fin qwordsInBlock) :
    (Textbook.permuteColumns q)[k] = (Textbook.permutation (Vector.ofFn fun j =>
      q[Textbook.column (Textbook.columnOf k).1 j]))[(Textbook.columnOf k).2] := by
  unfold Textbook.permuteColumns
  exact Vector.getElem_ofFn k.isLt

lemma block_ext {x y : Block} (h : ∀ k : Fin qwordsInBlock, x[k] = y[k]) : x = y := by
  apply Vector.ext
  intro k hk
  exact h ⟨k, hk⟩

section
variable (withXor : Bool) (prevBlock refBlock nextWords scratch : Block)

/-- The first loop keeps the destination and the scratch block apart. -/
lemma foldl_columnStep :
    (List.finRange 8).foldl (columnStep withXor prevBlock refBlock) (nextWords, scratch)
      = ((List.finRange 8).foldl (fun words i => scatter
            (fun j x => if withXor then x ^^^ (refBlock[columnWord i j] ^^^ prevBlock[columnWord i j])
              else refBlock[columnWord i j] ^^^ prevBlock[columnWord i j])
            (columnWord i) (List.finRange 16) words) nextWords,
          (List.finRange 8).foldl (fun words i => scatter
            (fun j _ => (p (Vector.ofFn fun j =>
              refBlock[columnWord i j] ^^^ prevBlock[columnWord i j]))[j])
            (columnWord i) (List.finRange 16) words) scratch) := by
  rw [← foldl_prod]
  congr 1
  funext state i
  unfold columnStep writeWords xorWords scatter
  cases withXor <;> simp

/-- What the first loop leaves in the destination. -/
lemma getElem_foldl_columnStep_fst (k : Fin qwordsInBlock) :
    ((List.finRange 8).foldl (columnStep withXor prevBlock refBlock) (nextWords, scratch)).1[k]
      = if withXor then nextWords[k] ^^^ (refBlock[k] ^^^ prevBlock[k])
        else refBlock[k] ^^^ prevBlock[k] := by
  have h := getElem_foldl_columns
    (fun ij x => if withXor then
        x ^^^ (refBlock[columnWord ij.1 ij.2] ^^^ prevBlock[columnWord ij.1 ij.2])
      else refBlock[columnWord ij.1 ij.2] ^^^ prevBlock[columnWord ij.1 ij.2])
    (fun ij => columnWord ij.1 ij.2) columnWord_injective nextWords (Textbook.rowOf k)
  rw [foldl_columnStep]
  simpa only [columnWord_rowOf] using h

/-- What the first loop leaves in the scratch block: the row permutation of `R`. -/
lemma foldl_columnStep_snd :
    ((List.finRange 8).foldl (columnStep withXor prevBlock refBlock) (nextWords, scratch)).2
      = Textbook.permuteRows (Textbook.xorBlocks prevBlock refBlock) := by
  apply block_ext
  intro k
  have h := getElem_foldl_columns
    (fun ij _ => (p (Vector.ofFn fun j =>
      refBlock[columnWord ij.1 j] ^^^ prevBlock[columnWord ij.1 j]))[ij.2])
    (fun ij => columnWord ij.1 ij.2) columnWord_injective scratch (Textbook.rowOf k)
  rw [foldl_columnStep]
  simp only [columnWord_rowOf] at h
  refine h.trans ?_
  refine Eq.trans ?_ (getElem_permuteRows _ k).symm
  simp only [getElem_xorBlocks, ← columnWord_eq_row, p_eq_permutation, BitVec.xor_comm]

/-- What the second loop adds to the destination: the column permutation of the scratch block. -/
lemma getElem_foldl_rowStep (blockRWords : Block) (k : Fin qwordsInBlock) :
    ((List.finRange 8).foldl (rowStep blockRWords) nextWords)[k]
      = nextWords[k] ^^^ (Textbook.permuteColumns blockRWords)[k] := by
  have h := getElem_foldl_columns
    (fun ij x => x ^^^ (p (Vector.ofFn fun j => blockRWords[rowWord ij.1 j]))[ij.2])
    (fun ij => rowWord ij.1 ij.2) rowWord_injective nextWords (Textbook.columnOf k)
  simp only [rowWord_columnOf] at h
  rw [getElem_permuteColumns, ← p_eq_permutation]
  simp only [← rowWord_eq_column]
  exact h

/-- The fused compression is the textbook's, whatever the scratch block holds at first. -/
lemma fillBlockRaw_eq_compress :
    fillBlockRaw withXor prevBlock refBlock nextWords scratch
      = if withXor then Textbook.xorBlocks (Textbook.compress prevBlock refBlock) nextWords
        else Textbook.compress prevBlock refBlock := by
  have hfst := getElem_foldl_columnStep_fst withXor prevBlock refBlock nextWords scratch
  have hsnd := foldl_columnStep_snd withXor prevBlock refBlock nextWords scratch
  unfold fillBlockRaw
  generalize (List.finRange 8).foldl (columnStep withXor prevBlock refBlock) (nextWords, scratch)
    = columns at hfst hsnd
  apply block_ext
  intro k
  refine (getElem_foldl_rowStep columns.1 columns.2 k).trans ?_
  rw [hfst, hsnd]
  unfold Textbook.compress
  cases withXor
  · simp only [Bool.false_eq_true, if_false, getElem_xorBlocks]
    rw [BitVec.xor_comm, BitVec.xor_comm refBlock[k]]
  · simp only [if_true, getElem_xorBlocks]
    rw [BitVec.xor_comm, BitVec.xor_comm refBlock[k], BitVec.xor_comm nextWords[k],
      BitVec.xor_assoc, BitVec.xor_assoc, BitVec.xor_assoc]

end

/-! ## The reference index -/

/-- The `u64` arithmetic of the relative position does not wrap. -/
lemma toNat_relativePosition (pseudoRand : U64) {area : ℕ} (hpos : 0 < area)
    (harea : area ≤ laneLength) :
    (BitVec.ofNat 64 area - 1#64 - ((BitVec.ofNat 64 area *
        (((pseudoRand &&& 0xffffffff#64) * (pseudoRand &&& 0xffffffff#64)) >>> 32)) >>> 32)).toNat
      = area - 1 - area * ((pseudoRand.toNat % 2 ^ 32) ^ 2 / 2 ^ 32) / 2 ^ 32 := by
  have hmask : (pseudoRand &&& 0xffffffff#64).toNat = pseudoRand.toNat % 2 ^ 32 := by
    rw [and_mask_eq_trunc, Textbook.trunc, BitVec.toNat_setWidth, BitVec.toNat_setWidth]
    omega
  set j := pseudoRand.toNat % 2 ^ 32 with hj
  have hjlt : j < 2 ^ 32 := Nat.mod_lt _ (by norm_num)
  have harea' : area ≤ 262144 := harea
  have hsq : j * j ≤ (2 ^ 32 - 1) * (2 ^ 32 - 1) := Nat.mul_le_mul (by omega) (by omega)
  have hx : (((pseudoRand &&& 0xffffffff#64) * (pseudoRand &&& 0xffffffff#64)) >>> 32).toNat
      = j ^ 2 / 2 ^ 32 := by
    rw [BitVec.toNat_ushiftRight, BitVec.toNat_mul, hmask, Nat.shiftRight_eq_div_pow,
      Nat.mod_eq_of_lt (by omega), pow_two]
  have hxlt : j ^ 2 / 2 ^ 32 < 2 ^ 32 := by
    rw [pow_two]
    omega
  generalize ((pseudoRand &&& 0xffffffff#64) * (pseudoRand &&& 0xffffffff#64)) >>> 32 = x at hx ⊢
  rw [← hx] at hxlt ⊢
  have hax : area * x.toNat < area * 2 ^ 32 := Nat.mul_lt_mul_of_pos_left hxlt hpos
  have hy : ((BitVec.ofNat 64 area * x) >>> 32).toNat = area * x.toNat / 2 ^ 32 := by
    rw [BitVec.toNat_ushiftRight, BitVec.toNat_mul, BitVec.toNat_ofNat, Nat.shiftRight_eq_div_pow,
      Nat.mod_eq_of_lt (a := area) (by omega), Nat.mod_eq_of_lt (by omega)]
  have hsub : (BitVec.ofNat 64 area - 1#64).toNat = area - 1 := by
    rw [BitVec.toNat_sub, BitVec.toNat_ofNat]
    show (2 ^ 64 - 1 + area % 2 ^ 64) % 2 ^ 64 = area - 1
    omega
  rw [BitVec.toNat_sub, hy, hsub]
  omega

/-- The position of a block in the lane, where the specialised loop that computes it is. -/
structure InLoop (firstPass : Bool) (pass slice index : ℕ) : Prop where
  firstPass_iff : firstPass ↔ pass = 0
  slice_lt : slice < 4
  index_lt : index < segmentLength
  two_le : firstPass → 2 ≤ slice * segmentLength + index

section
variable {firstPass : Bool} {pass slice index : ℕ}

lemma InLoop.referenceArea_eq (h : InLoop firstPass pass slice index) :
    (if firstPass then slice * segmentLength + index - 1
        else laneLength - segmentLength + index - 1)
      = Textbook.referenceArea segmentLength pass slice index := by
  unfold Textbook.referenceArea
  cases firstPass with
  | false =>
    have hpass : pass ≠ 0 := fun h0 => Bool.false_ne_true (h.firstPass_iff.mpr h0)
    rw [if_neg Bool.false_ne_true, if_neg hpass]
    rfl
  | true => rw [if_pos rfl, if_pos (h.firstPass_iff.mp rfl)]

/-- The reference area is not empty, and leaves out the previous and the current block. -/
lemma InLoop.referenceArea_bounds (h : InLoop firstPass pass slice index) :
    0 < Textbook.referenceArea segmentLength pass slice index ∧
      Textbook.referenceArea segmentLength pass slice index + 1
        = if firstPass then slice * segmentLength + index else laneLength - segmentLength + index := by
  rw [← h.referenceArea_eq]
  have htwo := h.two_le
  unfold laneLength segmentLength at *
  cases firstPass <;> simp at htwo ⊢ <;> omega

lemma InLoop.referenceArea_lt (h : InLoop firstPass pass slice index) :
    Textbook.referenceArea segmentLength pass slice index < laneLength := by
  have harea := h.referenceArea_bounds.2
  have hslice := h.slice_lt
  have hindex := h.index_lt
  unfold laneLength segmentLength at *
  split at harea <;> omega

/-- The unwrapped offset of the first pass and of the last slice is the modular one. -/
lemma InLoop.toNat_refOffset (h : InLoop firstPass pass slice index) (pseudoRand : U64) :
    (refOffset firstPass slice (slice * segmentLength + index) pseudoRand).toNat
      = Textbook.referenceIndex segmentLength pass slice index pseudoRand := by
  have hrelative := toNat_relativePosition pseudoRand h.referenceArea_bounds.1 h.referenceArea_lt.le
  have hlt := h.referenceArea_lt
  unfold refOffset Textbook.referenceIndex Textbook.referenceStart
  dsimp only
  rw [Nat.add_sub_cancel_left, h.referenceArea_eq]
  generalize Textbook.referenceArea segmentLength pass slice index = area at *
  generalize BitVec.ofNat 64 area - 1#64 - _ = relative at *
  rw [← hrelative]
  have hrelativeLt : relative.toNat < 4 * segmentLength := by
    have hlane : laneLength = 4 * segmentLength := rfl
    omega
  by_cases hwrap : (firstPass || slice == syncPoints - 1) = true
  · -- the start position is zero, and the relative one stays in the lane
    have hstart : (if pass = 0 then 0 else (slice + 1) % 4 * segmentLength) = 0 := by
      split
      · rfl
      · have hfirst : firstPass = false := by
          cases firstPass
          · rfl
          · exact absurd (h.firstPass_iff.mp rfl) ‹_›
        have hslice : slice = 3 := by simpa [hfirst, syncPoints] using hwrap
        rw [hslice]
        rfl
    rw [if_pos hwrap, if_pos hwrap, hstart, zero_add, Nat.mod_eq_of_lt hrelativeLt]
    exact congrArg BitVec.toNat (BitVec.zero_add relative)
  · have hnot : ¬pass = 0 ∧ slice ≠ 3 := by
      constructor
      · intro h0
        simp [h.firstPass_iff.mpr h0] at hwrap
      · intro h3
        simp [h3, syncPoints] at hwrap
    have hslice := h.slice_lt
    rw [if_neg hwrap, if_neg hwrap, if_neg hnot.1, Nat.mod_eq_of_lt (show slice + 1 < 4 by omega),
      BitVec.toNat_and, BitVec.toNat_add, BitVec.toNat_ofNat]
    show ((slice + 1) * 65536 % 2 ^ 64 + relative.toNat) % 2 ^ 64 &&& (2 ^ 18 - 1) = _ % 262144
    have hrelativeLt' : relative.toNat < 262144 := hrelativeLt
    rw [Nat.and_two_pow_sub_one_eq_mod]
    unfold segmentLength
    omega

end

/-! ## The segment loop -/

/-- What the offsets of an iteration keep to: they are in the lane and differ, the reference
block is in another segment or earlier in the current one, and in the first pass both inputs
come before the current block. -/
structure SafeOffsets (firstPass : Bool) (slice prevOffset refOffset currOffset : ℕ) : Prop where
  curr_div : currOffset / segmentLength = slice
  curr_lt : currOffset < randomxLaneLength
  prev_lt : prevOffset < randomxLaneLength
  ref_lt : refOffset < randomxLaneLength
  prev_ne_curr : prevOffset ≠ currOffset
  ref_ne_curr : refOffset ≠ currOffset
  ref_ne_prev : refOffset ≠ prevOffset
  ref_region : refOffset / segmentLength ≠ slice ∨ refOffset < currOffset
  firstPass_earlier : firstPass → prevOffset < currOffset ∧ refOffset < currOffset

/-- The block before the current one, with the wrap at the start of the lane. -/
def previousOffset (currOffset : ℕ) : ℕ := (currOffset + laneLength - 1) % laneLength

section
variable {firstPass : Bool} {pass slice index : ℕ}

/-- The reference block is neither the current nor the previous one. -/
lemma InLoop.referenceIndex_bounds (h : InLoop firstPass pass slice index) (pseudoRand : U64) :
    let current := slice * segmentLength + index
    let reference := Textbook.referenceIndex segmentLength pass slice index pseudoRand
    reference < laneLength ∧ reference ≠ current ∧ reference ≠ previousOffset current ∧
      (reference / segmentLength ≠ slice ∨ reference < current) ∧
      (firstPass → reference < current) := by
  have harea := h.referenceArea_bounds
  have hlt := h.referenceArea_lt
  have hslice := h.slice_lt
  have hindex := h.index_lt
  have hiff := h.firstPass_iff
  have htwo := h.two_le
  unfold Textbook.referenceIndex Textbook.referenceStart previousOffset
  dsimp only
  generalize Textbook.referenceArea segmentLength pass slice index = area at *
  generalize hz : area - 1 - _ = z
  have hzlt : z < area := by omega
  unfold laneLength segmentLength at *
  cases firstPass with
  | true =>
    have hpass : pass = 0 := hiff.mp rfl
    rw [if_pos rfl] at harea
    rw [if_pos hpass]
    have htwo := htwo rfl
    refine ⟨by omega, by omega, by omega, by omega, fun _ => by omega⟩
  | false =>
    have hpass : pass ≠ 0 := fun h0 => Bool.false_ne_true (hiff.mpr h0)
    rw [if_neg Bool.false_ne_true] at harea
    rw [if_neg hpass]
    refine ⟨by omega, by omega, by omega, by omega, fun h0 => absurd h0 Bool.false_ne_true⟩

lemma InLoop.safeOffsets (h : InLoop firstPass pass slice index) (pseudoRand : U64) :
    SafeOffsets firstPass slice (previousOffset (slice * segmentLength + index))
      (Textbook.referenceIndex segmentLength pass slice index pseudoRand)
      (slice * segmentLength + index) := by
  obtain ⟨hlt, hne, hprev, hregion, hearlier⟩ := h.referenceIndex_bounds pseudoRand
  have hslice := h.slice_lt
  have hindex := h.index_lt
  have htwo := h.two_le
  refine {
    curr_div := ?_
    curr_lt := ?_
    prev_lt := Nat.mod_lt _ (by decide)
    ref_lt := hlt
    prev_ne_curr := ?_
    ref_ne_curr := hne
    ref_ne_prev := hprev
    ref_region := hregion
    firstPass_earlier := ?_ }
  · unfold segmentLength at *
    omega
  · unfold segmentLength randomxLaneLength at *
    omega
  · unfold previousOffset laneLength segmentLength at *
    omega
  · intro hfirst
    refine ⟨?_, hearlier hfirst⟩
    have htwo := htwo hfirst
    unfold previousOffset laneLength segmentLength at *
    omega

end

lemma SafeOffsets.inputsAllowed {firstPass : Bool} {slice prev ref curr : ℕ}
    (h : SafeOffsets firstPass slice prev ref curr) : inputsAllowed firstPass prev ref curr := by
  have hprev := h.prev_ne_curr
  have href := h.ref_ne_curr
  unfold Argon2.inputsAllowed
  cases firstPass with
  | true => simp [hprev, href, h.firstPass_earlier rfl]
  | false => simp [hprev, href]

/-- The blocks below the bound are those of the textbook's memory. -/
def Agrees (bound : ℕ) (blocks : Memory) (memory : ℕ → Block) : Prop :=
  ∀ k (h : k < randomxLaneLength), k < bound → blocks.get ⟨k, h⟩ = memory k

/-- What is known equal before the block at `current` is computed: in the first pass the blocks
written so far, later the whole lane. -/
def agreementBound (firstPass : Bool) (current : ℕ) : ℕ :=
  if firstPass then current else randomxLaneLength

lemma Agrees.getElem? {bound k : ℕ} {blocks : Memory} {memory : ℕ → Block}
    (h : Agrees bound blocks memory) (hlt : k < randomxLaneLength) (hk : k < bound) :
    blocks[k]? = some (memory k) := by
  rw [Vector.getElem?_eq_getElem hlt]
  exact congrArg some (h k hlt hk)

lemma Agrees.set {bound bound' current : ℕ} {blocks : Memory} {memory : ℕ → Block} {block : Block}
    (h : Agrees bound blocks memory) (hcurrent : current < randomxLaneLength)
    (hbound : ∀ k < bound', k ≠ current → k < bound) :
    Agrees bound' (blocks.setIfInBounds current block)
      (Function.update memory current block) := by
  intro k hk hlt
  by_cases hkc : k = current
  · subst hkc
    rw [Function.update_self]
    exact Vector.getElem_setIfInBounds_self hcurrent
  · rw [Function.update_of_ne hkc]
    exact (Vector.getElem_setIfInBounds_ne hk (Ne.symm hkc)).trans (h k hk (hbound k hlt hkc))

section
variable {firstPass : Bool} {pass slice index : ℕ} {blocks : Memory} {memory : ℕ → Block}
  (scratch : Block)

/-- An iteration whose offsets are safe compresses into the current block. -/
lemma segmentStep_eq (withXor : Bool) {prev ref curr : ℕ} {prevBlock refBlock currBlock : Block}
    (hprev : blocks[prev]? = some prevBlock)
    (href : (refOffset firstPass slice curr prevBlock[0]).toNat = ref)
    (hrefBlock : blocks[ref]? = some refBlock) (hcurr : blocks[curr]? = some currBlock)
    (hsafe : SafeOffsets firstPass slice prev ref curr) :
    segmentStep scratch firstPass withXor slice (blocks, prev) curr =
      some (blocks.setIfInBounds curr
        (fillBlockRaw withXor prevBlock refBlock currBlock scratch), curr) := by
  unfold segmentStep
  dsimp only
  rw [hprev, Option.bind_eq_bind, Option.bind_some, href, hrefBlock, Option.bind_some, hcurr,
    Option.bind_some, if_pos hsafe.inputsAllowed]

/-- One iteration of the segment loop is one step of the textbook's loop. -/
lemma segmentStep_refines (h : InLoop firstPass pass slice index)
    (hagrees : Agrees (agreementBound firstPass (slice * segmentLength + index)) blocks memory) :
    ∃ blocks', segmentStep scratch firstPass (!firstPass) slice
        (blocks, previousOffset (slice * segmentLength + index)) (slice * segmentLength + index)
          = some (blocks', slice * segmentLength + index) ∧
      Agrees (agreementBound firstPass (slice * segmentLength + index + 1)) blocks'
        (Textbook.step segmentLength pass slice memory index) := by
  have hskip : ¬(pass = 0 ∧ slice = 0 ∧ index < 2) := by
    intro ⟨hpass, hslice, hindex⟩
    have htwo := h.two_le (h.firstPass_iff.mpr hpass)
    rw [hslice] at htwo
    omega
  have hpass := h.firstPass_iff
  unfold Textbook.step
  rw [if_neg hskip]
  show ∃ blocks', _ ∧ Agrees _ blocks' (Function.update memory (slice * segmentLength + index)
    (if pass = 0 then Textbook.compress (memory (previousOffset (slice * segmentLength + index)))
        (memory (Textbook.referenceIndex segmentLength pass slice index
          (memory (previousOffset (slice * segmentLength + index)))[0]))
      else _))
  have hsafe :=
    h.safeOffsets (memory (previousOffset (slice * segmentLength + index)))[0]
  have hoffset :=
    h.toNat_refOffset (memory (previousOffset (slice * segmentLength + index)))[0]
  generalize hcurr : slice * segmentLength + index = current at *
  -- both inputs lie where the memories agree
  have hread : ∀ k < randomxLaneLength, (firstPass → k < current) →
      blocks[k]? = some (memory k) := by
    intro k hk hfirst
    apply hagrees.getElem? hk
    unfold agreementBound
    split
    · exact hfirst ‹_›
    · exact hk
  rw [segmentStep_eq scratch _ (hread _ hsafe.prev_lt fun h => (hsafe.firstPass_earlier h).1)
    hoffset (hread _ hsafe.ref_lt fun h => (hsafe.firstPass_earlier h).2)
    (Vector.getElem?_eq_getElem hsafe.curr_lt) hsafe, fillBlockRaw_eq_compress]
  refine ⟨_, rfl, ?_⟩
  cases firstPass with
  | true =>
    rw [if_pos (hpass.mp rfl)]
    apply hagrees.set hsafe.curr_lt
    intro k hk hne
    have hk : k < current + 1 := hk
    show k < current
    omega
  | false =>
    have hold : blocks.get ⟨current, hsafe.curr_lt⟩ = memory current :=
      hagrees current hsafe.curr_lt hsafe.curr_lt
    rw [if_neg fun h0 => Bool.false_ne_true (hpass.mpr h0), ← hold]
    apply hagrees.set hsafe.curr_lt
    intro k hk _
    exact hk

end

/-- The block before the first one of a segment, with the wrap at the start of the lane. -/
lemma toNat_prevOffset {firstOffset : ℕ} (h : firstOffset < laneLength) :
    ((BitVec.ofNat 32 firstOffset - 1) &&& laneMask).toNat = previousOffset firstOffset := by
  have h : firstOffset < 262144 := h
  rw [BitVec.toNat_and, BitVec.toNat_sub, BitVec.toNat_ofNat]
  show (2 ^ 32 - 1 + firstOffset % 2 ^ 32) % 2 ^ 32 &&& (2 ^ 18 - 1)
    = (firstOffset + 262144 - 1) % 262144
  rw [Nat.and_two_pow_sub_one_eq_mod]
  omega

lemma previousOffset_succ {k : ℕ} (h : k < laneLength) : previousOffset (k + 1) = k := by
  unfold previousOffset
  rw [show k + 1 + laneLength - 1 = k + laneLength by omega, Nat.add_mod_right,
    Nat.mod_eq_of_lt h]

section
variable {firstPass : Bool} {pass slice : ℕ} {blocks : Memory} {memory : ℕ → Block}
  (scratch : Block)

/-- Where the segment loop starts. -/
def firstIndex (firstPass : Bool) (slice : ℕ) : ℕ := if firstPass && slice == 0 then 2 else 0

lemma firstIndex_lt (firstPass : Bool) (slice : ℕ) :
    firstIndex firstPass slice < segmentLength := by
  unfold firstIndex segmentLength
  split <;> norm_num

/-- The offset at which the segment loop starts. -/
def firstOffset (firstPass : Bool) (slice : ℕ) : ℕ :=
  slice * segmentLength + firstIndex firstPass slice

lemma firstOffset_lt (hslice : slice < 4) : firstOffset firstPass slice < laneLength := by
  have hfirst := firstIndex_lt firstPass slice
  unfold firstOffset laneLength segmentLength at *
  omega

lemma firstOffset_succ (slice : ℕ) :
    firstOffset firstPass (slice + 1) = (slice + 1) * segmentLength := by
  simp [firstOffset, firstIndex]

lemma agreementBound_firstOffset_zero :
    agreementBound firstPass (firstOffset firstPass 0) = agreementBound firstPass 2 := by
  cases firstPass <;> rfl

/-- The offsets of the segment loop are in it. -/
lemma inLoop_of_firstOffset_le (hpass : firstPass ↔ pass = 0) (hslice : slice < 4) {k : ℕ}
    (hk : firstOffset firstPass slice ≤ k) (hk' : k < (slice + 1) * segmentLength) :
    ∃ index, k = slice * segmentLength + index ∧ InLoop firstPass pass slice index := by
  have htwo : firstPass → 2 ≤ firstOffset firstPass slice := by
    intro h
    unfold firstOffset firstIndex segmentLength
    split
    · omega
    · rename_i hskip
      have hne : slice ≠ 0 := by simpa [h] using hskip
      omega
  have hle : slice * segmentLength ≤ k := le_trans (Nat.le_add_right _ _) hk
  obtain ⟨index, rfl⟩ := Nat.exists_eq_add_of_le hle
  refine ⟨index, rfl, hpass, hslice, ?_, fun h => le_trans (htwo h) hk⟩
  rw [Nat.add_mul, Nat.one_mul] at hk'
  omega

lemma fillMemoryBlocksRandomxSegment_eq {withXor : Bool} (hslice : slice < 4) :
    fillMemoryBlocksRandomxSegment scratch firstPass withXor slice blocks =
      ((List.range' (firstOffset firstPass slice)
        (segmentLength - firstIndex firstPass slice)).foldlM
          (segmentStep scratch firstPass withXor slice)
          (blocks, previousOffset (firstOffset firstPass slice))).map Prod.fst := by
  have hlen : slice * segmentLength + segmentLength - firstOffset firstPass slice =
      segmentLength - firstIndex firstPass slice := by
    unfold firstOffset
    omega
  rw [← toNat_prevOffset (firstOffset_lt hslice), ← hlen, Option.map_eq_bind]
  rfl

/-- The textbook's loop skips the indices before the start of the specialised one. -/
lemma foldl_step_firstIndex (hpass : firstPass ↔ pass = 0) :
    (List.range (firstIndex firstPass slice)).foldl (Textbook.step segmentLength pass slice) memory
      = memory := by
  unfold firstIndex
  split
  · rename_i h
    have h : firstPass = true ∧ slice = 0 := by simpa using h
    have hstep (index : ℕ) (hindex : index < 2) :
        Textbook.step segmentLength pass slice memory index = memory := by
      unfold Textbook.step
      rw [if_pos ⟨hpass.mp h.1, h.2, hindex⟩]
    show Textbook.step segmentLength pass slice
      (Textbook.step segmentLength pass slice memory 0) 1 = memory
    rw [hstep 0 (by norm_num), hstep 1 (by norm_num)]
  · rfl

/-- A segment loop is the textbook's loop over the indices of the slice. -/
lemma fillMemoryBlocksRandomxSegment_refines (hpass : firstPass ↔ pass = 0) (hslice : slice < 4)
    (hagrees : Agrees (agreementBound firstPass (firstOffset firstPass slice)) blocks memory) :
    ∃ blocks', fillMemoryBlocksRandomxSegment scratch firstPass (!firstPass) slice blocks
        = some blocks' ∧
      Agrees (agreementBound firstPass ((slice + 1) * segmentLength)) blocks'
        (Textbook.fillSlice segmentLength pass memory slice) := by
  let textbook (k : ℕ) : ℕ → Block :=
    (List.range (k - slice * segmentLength)).foldl (Textbook.step segmentLength pass slice) memory
  -- the invariant before the block at `k` is computed
  let invariant (k : ℕ) (state : Memory × ℕ) : Prop :=
    state.2 = previousOffset k ∧ Agrees (agreementBound firstPass k) state.1 (textbook k)
  have hend : firstOffset firstPass slice + (segmentLength - firstIndex firstPass slice) =
      (slice + 1) * segmentLength := by
    have hfirst := firstIndex_lt firstPass slice
    unfold firstOffset
    rw [Nat.add_mul]
    omega
  have init : invariant (firstOffset firstPass slice)
      (blocks, previousOffset (firstOffset firstPass slice)) := by
    refine ⟨rfl, ?_⟩
    show Agrees _ _ (textbook _)
    unfold textbook
    rw [firstOffset, Nat.add_sub_cancel_left, foldl_step_firstIndex hpass]
    exact hagrees
  have loop := foldlM_range'_invariant (n := segmentLength - firstIndex firstPass slice)
    (f := segmentStep scratch firstPass (!firstPass) slice) (P := invariant) ?step init
  case step =>
    intro k state hk hk' ⟨hprev, hstate⟩
    obtain ⟨index, rfl, hloop⟩ := inLoop_of_firstOffset_le hpass hslice hk (hend ▸ hk')
    obtain ⟨blocks', hstep, hagrees'⟩ := segmentStep_refines scratch hloop hstate
    refine ⟨(blocks', slice * segmentLength + index), ?_, ?_, ?_⟩
    · rw [← hstep, ← hprev]
    · have hlt := (hloop.safeOffsets 0).curr_lt
      exact (previousOffset_succ hlt).symm
    · have hnext : textbook (slice * segmentLength + index + 1)
          = Textbook.step segmentLength pass slice (textbook (slice * segmentLength + index))
              index := by
        unfold textbook
        rw [show slice * segmentLength + index + 1 - slice * segmentLength = index + 1 from by omega,
          Nat.add_sub_cancel_left, List.range_succ, List.foldl_concat]
      rw [hnext]
      exact hagrees'
  obtain ⟨state, hrun, -, hstate⟩ := loop
  rw [hend] at hstate
  refine ⟨state.1, ?_, ?_⟩
  · rw [fillMemoryBlocksRandomxSegment_eq scratch hslice, hrun]
    rfl
  · have hfold : textbook ((slice + 1) * segmentLength)
        = Textbook.fillSlice segmentLength pass memory slice := by
      unfold textbook Textbook.fillSlice
      rw [Nat.add_mul, Nat.add_sub_cancel_left, Nat.one_mul]
    rw [← hfold]
    exact hstate

/-- A pass keeps the agreement: the first one extends it to the whole lane. -/
lemma fillMemoryBlocksRandomxPass_refines (hpass : firstPass ↔ pass = 0)
    (hagrees : Agrees (agreementBound firstPass 2) blocks memory) :
    ∃ blocks', fillMemoryBlocksRandomxPass scratch firstPass (!firstPass) blocks = some blocks' ∧
      Agrees randomxLaneLength blocks' (Textbook.fillPass segmentLength memory pass) := by
  have hstart : Agrees (agreementBound firstPass (firstOffset firstPass 0)) blocks memory := by
    rw [agreementBound_firstOffset_zero]
    exact hagrees
  obtain ⟨blocks₀, hrun₀, h₀⟩ :=
    fillMemoryBlocksRandomxSegment_refines scratch hpass (by norm_num : 0 < 4) hstart
  obtain ⟨blocks₁, hrun₁, h₁⟩ := fillMemoryBlocksRandomxSegment_refines scratch hpass
    (by norm_num : 1 < 4) ((firstOffset_succ 0).symm ▸ h₀)
  obtain ⟨blocks₂, hrun₂, h₂⟩ := fillMemoryBlocksRandomxSegment_refines scratch hpass
    (by norm_num : 2 < 4) ((firstOffset_succ 1).symm ▸ h₁)
  obtain ⟨blocks₃, hrun₃, h₃⟩ := fillMemoryBlocksRandomxSegment_refines scratch hpass
    (by norm_num : 3 < 4) ((firstOffset_succ 2).symm ▸ h₂)
  refine ⟨blocks₃, ?_, ?_⟩
  · unfold fillMemoryBlocksRandomxPass
    rw [hrun₀, Option.bind_eq_bind, Option.bind_some, hrun₁, Option.bind_some, hrun₂,
      Option.bind_some, hrun₃]
  · have hend : agreementBound firstPass ((3 + 1) * segmentLength) = randomxLaneLength := by
      unfold agreementBound segmentLength randomxLaneLength
      split <;> norm_num
    have hfold : Textbook.fillPass segmentLength memory pass
        = [0, 1, 2, 3].foldl (Textbook.fillSlice segmentLength pass) memory := rfl
    rw [hend] at h₃
    rw [hfold, List.foldl_cons, List.foldl_cons, List.foldl_cons, List.foldl_cons, List.foldl_nil]
    exact h₃

end

/-! ## Hashing -/

section
variable (blake2b : (len : ℕ) → List U8 → Vector U8 len)

lemma length_writeAt {out bytes : List U8} {pos : ℕ} (h : pos + bytes.length ≤ out.length) :
    (writeAt out pos bytes).length = out.length := by
  simp [writeAt]
  omega

lemma take_writeAt {out bytes : List U8} {pos : ℕ} (h : pos + bytes.length ≤ out.length) :
    (writeAt out pos bytes).take (pos + bytes.length) = out.take pos ++ bytes := by
  unfold writeAt
  rw [List.take_append_of_le_length (by simp; omega), List.take_of_length_le (by simp)]

section
variable {outLen outPos toProduce : ℕ} {out : List U8} {outBuffer : Vector U8 blake2bOutLength}

lemma hprimeLoop_of_lt (h : blake2bOutLength < toProduce) :
    hprimeLoop blake2b outLen out outBuffer outPos toProduce
      = hprimeLoop blake2b outLen (writeAt out outPos
          ((blake2b blake2bOutLength outBuffer.toList).toList.take 32))
          (blake2b blake2bOutLength outBuffer.toList) (outPos + 32) (toProduce - 32) := by
  conv_lhs => unfold hprimeLoop
  rw [if_pos h]

lemma hprimeLoop_of_le (h : toProduce ≤ blake2bOutLength) :
    hprimeLoop blake2b outLen out outBuffer outPos toProduce
      = writeAt out outPos (blake2b (outLen - outPos) outBuffer.toList).toList := by
  unfold hprimeLoop
  rw [if_neg (not_lt.mpr h)]

end

/-- From the chained hash number `i`, the loop completes the output of the textbook's. -/
lemma hprimeLoop_eq {length r i : ℕ} (rounds : ℕ) {input out : List U8}
    (hr : r = (length + 31) / 32 - 2)
    (hout : out.length = length) (hi : i + 1 + rounds = r)
    (hwritten : out.take (32 * (i + 1)) = (List.range (i + 1)).flatMap
      fun i => (Textbook.hPrimeHash blake2b length input i).toList.take 32) :
    hprimeLoop blake2b length out (Textbook.hPrimeHash blake2b length input i) (32 * (i + 1))
        (length - 32 * (i + 1))
      = (List.range r).flatMap
          (fun i => (Textbook.hPrimeHash blake2b length input i).toList.take 32)
        ++ (blake2b (length - 32 * r)
          (Textbook.hPrimeHash blake2b length input (r - 1)).toList).toList := by
  induction rounds generalizing i out with
  | zero =>
    subst hi
    have hlast : length - 32 * (i + 1) ≤ blake2bOutLength := by
      unfold blake2bOutLength
      omega
    rw [hprimeLoop_of_le blake2b hlast, writeAt, hwritten]
    rw [List.drop_of_length_le (by simp; omega), List.append_nil, Nat.add_zero, Nat.add_sub_cancel]
  | succ rounds ih =>
    have hmore : blake2bOutLength < length - 32 * (i + 1) := by
      unfold blake2bOutLength
      omega
    rw [hprimeLoop_of_lt blake2b hmore]
    show hprimeLoop blake2b length (writeAt out (32 * (i + 1)) ((Textbook.hPrimeHash blake2b length
      input (i + 1)).toList.take 32)) (Textbook.hPrimeHash blake2b length input (i + 1)) _ _ = _
    generalize hbytes : (Textbook.hPrimeHash blake2b length input (i + 1)).toList.take 32 = bytes
    have hlen : bytes.length = 32 := by simp [← hbytes]
    have hfits : 32 * (i + 1) + bytes.length ≤ out.length := by
      unfold blake2bOutLength at hmore
      omega
    rw [show 32 * (i + 1) + 32 = 32 * (i + 1 + 1) from rfl, Nat.sub_sub,
      show 32 * (i + 1) + 32 = 32 * (i + 1 + 1) from rfl]
    apply ih ((length_writeAt hfits).trans hout) (by omega)
    have htake := take_writeAt hfits
    rw [hlen] at htake
    rw [List.range_succ, List.flatMap_append, ← hwritten, List.flatMap_singleton, hbytes]
    exact htake

/-- `hprime` fills its output with the variable-length hash. -/
lemma hprime_eq_hPrime (out input : List U8) :
    hprime blake2b out input = Textbook.hPrime blake2b out.length input := by
  unfold hprime Textbook.hPrime
  by_cases hshort : out.length ≤ 64
  · rw [if_pos hshort]
    exact (if_pos hshort).symm
  · rw [if_neg hshort]
    refine Eq.trans ?_ (if_neg hshort).symm
    generalize hbytes : (Textbook.hPrimeHash blake2b out.length input 0).toList.take 32 = bytes
    have hlen : bytes.length = 32 := by simp [← hbytes]
    have hfits : 0 + bytes.length ≤ out.length := by omega
    have htake := take_writeAt hfits
    have hwritten : (writeAt out 0 bytes).take (32 * (0 + 1)) = (List.range (0 + 1)).flatMap
        fun i => (Textbook.hPrimeHash blake2b out.length input i).toList.take 32 := by
      have htake := take_writeAt hfits
      rw [hlen] at htake
      rw [List.range_one, List.flatMap_singleton, hbytes]
      exact htake
    have h := hprimeLoop_eq blake2b (i := 0) ((out.length + 31) / 32 - 2 - 1) rfl
      (length_writeAt hfits) (by omega) hwritten
    rw [← hbytes] at h
    exact h

lemma initialHash_eq_seed (key : Textbook.ByteString) :
    initialHash blake2b key.bytes
      = (Textbook.seed blake2b (Textbook.randomxInputs key)).toList ++ List.replicate 8 0 := by
  have hlen : BitVec.ofNat 32 key.bytes.length = BitVec.ofNatLT key.bytes.length key.length_lt := by
    rw [BitVec.ofNatLT_eq_ofNat]
  unfold initialHash Textbook.seed
  rw [hlen]
  simp [Textbook.randomxInputs, Textbook.ByteString.encode, randomxLanes, randomxHashLength,
    randomxLaneLength, randomxIterations, argon2Version13, argon2D, Textbook.parallelism,
    Textbook.version, Textbook.argon2dType]
  rfl

/-- A write right after a known part of the buffer. -/
lemma writeAt_append (start rest bytes : List U8) :
    writeAt (start ++ rest) start.length bytes = start ++ (bytes ++ rest.drop bytes.length) := by
  unfold writeAt
  rw [List.take_left, List.drop_append, List.append_assoc, List.drop_of_length_le (by omega),
    List.nil_append, Nat.add_sub_cancel_left]

lemma length_asU8 (block : Block) : block.asU8.length = 1024 := by
  have hwords : block.toList.length = 128 := Vector.length_toList
  unfold Block.asU8 wordBytes
  simp [List.length_flatMap, hwords]

lemma seedBlock_eq_startBlock (key : Textbook.ByteString) (index : ℕ) :
    seedBlock blake2b (initialHash blake2b key.bytes) index
      = Textbook.startBlock blake2b (Textbook.randomxInputs key) (BitVec.ofNat 32 index) := by
  unfold seedBlock Textbook.startBlock
  rw [initialHash_eq_seed]
  generalize hdigest : (Textbook.seed blake2b (Textbook.randomxInputs key)).toList = digest
  have hlen : digest.length = prehashDigestLength := by simp [← hdigest]
  have hfirst := writeAt_append digest (List.replicate 8 0) (toLeBytes (BitVec.ofNat 32 index))
  have hsecond := writeAt_append (digest ++ toLeBytes (BitVec.ofNat 32 index))
    ((List.replicate 8 0).drop 4) (toLeBytes 0)
  rw [List.length_append, hlen] at hsecond
  rw [hlen] at hfirst
  have hwrites : writeAt (writeAt (digest ++ List.replicate 8 0) prehashDigestLength
      (toLeBytes (BitVec.ofNat 32 index))) (prehashDigestLength + 4) (toLeBytes 0)
        = digest ++ toLeBytes (BitVec.ofNat 32 index) ++ toLeBytes 0 := by
    rw [hfirst, ← List.append_assoc]
    exact hsecond
  dsimp only
  rw [hwrites, hprime_eq_hPrime, length_asU8]

end

/-! ## The whole memory -/

/-- The lane with the textbook's first two blocks, and nothing known of the rest. -/
lemma agrees_start (uninit : Memory) {block₀ block₁ : Block} {memory : ℕ → Block}
    (h₀ : memory 0 = block₀) (h₁ : memory 1 = block₁) :
    Agrees (agreementBound true 2)
      ((uninit.set 0 block₀ (by decide)).set 1 block₁ (by decide)) memory := by
  intro k hk hlt
  have hlt : k < 2 := hlt
  interval_cases k
  · rw [h₀]
    exact (Vector.getElem_set_ne _ _ (by norm_num)).trans (Vector.getElem_set_self _)
  · rw [h₁]
    exact Vector.getElem_set_self _

/-- `initialize_randomx` computes the memory of textbook Argon2d, whatever its allocation and its
scratch block held before. -/
theorem initializeRandomx_eq_textbook (blake2b : (len : ℕ) → List U8 → Vector U8 len)
    (scratch : Block) (uninit : Memory) (key : Textbook.ByteString) :
    initializeRandomx scratch blake2b uninit key.bytes
      = some (Vector.ofFn fun i : Fin randomxLaneLength =>
          Textbook.memory blake2b (Textbook.randomxInputs key) i) := by
  let start (i : ℕ) : Block :=
    if i < 2 then Textbook.startBlock blake2b (Textbook.randomxInputs key) (BitVec.ofNat 32 i)
    else Block.zero
  -- the first two blocks agree, and the others are not compared before they are written
  have hstart : Agrees _ _ start := agrees_start uninit
    (seedBlock_eq_startBlock blake2b key 0).symm (seedBlock_eq_startBlock blake2b key 1).symm
  obtain ⟨blocks₁, hrun₁, h₁⟩ :=
    fillMemoryBlocksRandomxPass_refines scratch (show true = true ↔ 0 = 0 by simp) hstart
  obtain ⟨blocks₂, hrun₂, h₂⟩ :=
    fillMemoryBlocksRandomxPass_refines scratch (show false = true ↔ 1 = 0 by simp) h₁
  obtain ⟨blocks₃, hrun₃, h₃⟩ :=
    fillMemoryBlocksRandomxPass_refines scratch (show false = true ↔ 2 = 0 by simp) h₂
  have hmemory : Textbook.memory blake2b (Textbook.randomxInputs key)
      = [0, 1, 2].foldl (Textbook.fillPass segmentLength) start := by
    unfold Textbook.memory Textbook.fill
    have hsegment : (Textbook.randomxInputs key).memorySize.toNat / 4 = segmentLength := by
      simp [Textbook.randomxInputs, segmentLength]
    have hpasses : (Textbook.randomxInputs key).passes.toNat = 3 := by
      simp [Textbook.randomxInputs]
    rw [hsegment, hpasses]
    rfl
  rw [Bool.not_true] at hrun₁
  rw [Bool.not_false] at hrun₂ hrun₃
  unfold initializeRandomx
  dsimp only
  rw [hrun₁, Option.bind_eq_bind, Option.bind_some, hrun₂, Option.bind_some, hrun₃]
  apply congrArg some
  apply Vector.ext
  intro k hk
  rw [Vector.getElem_ofFn, hmemory, List.foldl_cons, List.foldl_cons, List.foldl_cons, List.foldl_nil]
  exact h₃ k hk hk

end RandomXSp1.Argon2
