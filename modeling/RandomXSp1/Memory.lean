import RandomXSp1.Loops
import RandomXSp1.Argon2.Core
import RandomXSp1.Superscalar.Generate
import RandomXSp1.Superscalar.ExecuteTheorems

/-!
# The light-mode dataset

`memory.rs`: the seed memory, made of the Argon2d blocks and the superscalar programs of a key,
and the dataset items derived from it. The cache is read through a raw pointer at a flat word
index.
-/

namespace RandomXSp1

open Superscalar (ScProgram ScExecInstr executeCompactUnchecked installPairHandlers)

/-- Blocks of the cache, of 128 words each. -/
def randomxArgonMemory : ℕ := 262144
def cacheLineSize : U64 := 64
def cacheLineWords : ℕ := 8
def argonBlockWords : ℕ := 128
def cacheLineMask : U64 := 4194303
def cacheWordCount : ℕ := 33554432

/-- The constants from which an item starts. -/
def superscalarMul0 : U64 := 6364136223846793005
def superscalarAdd1 : U64 := 9298411001130361340
def superscalarAdd2 : U64 := 12065312585734608966
def superscalarAdd3 : U64 := 9306329213124626780
def superscalarAdd4 : U64 := 5281919268842080866
def superscalarAdd5 : U64 := 10536153434571861004
def superscalarAdd6 : U64 := 3398623926847679864
def superscalarAdd7 : U64 := 9549104520008361294

/-- The decoded instructions are the ones a generated program carries: registers in range, with
the handlers of pairs installed. -/
def Superscalar.ScProgram.Executable (prog : ScProgram) : Prop :=
  ∃ exec : List ScExecInstr, (∀ instr ∈ exec, instr.Aligned) ∧
    prog.exec = installPairHandlers exec

/-- The cache and the programs of a key. The fields are private, and there are two constructors:
an empty memory without programs, and one with all its blocks. -/
structure SeedMemory where
  blocks : Array Argon2.Block
  programs : List ScProgram
  valid : programs = [] ∨
    (blocks.size = randomxArgonMemory ∧ ∀ prog ∈ programs, prog.Executable)

namespace SeedMemory

/-- A memory without a cache, for machines that do not read it. -/
def noMemory : SeedMemory := ⟨#[], [], Or.inl rfl⟩

/-- The word of the cache that is mixed into a register. -/
def mixWordIndex (regValue : U64) (r : ℕ) : ℕ :=
  (regValue &&& cacheLineMask).toNat * cacheLineWords + r

/-- Word `word_index` of the blocks read as one array. -/
def mixBlockValue (seedMem : SeedMemory) (regValue : U64) (r : ℕ) : Option U64 :=
  let wordIndex := mixWordIndex regValue r
  if wordIndex < cacheWordCount then do
    let block ← seedMem.blocks[wordIndex / argonBlockWords]?
    (block.toList)[wordIndex % argonBlockWords]?
  else none

/-- The loop over the words of an item. -/
def mixItem (seedMem : SeedMemory) (regValue : U64) (ds : Vector U64 8) : Option (Vector U64 8) :=
  (List.finRange 8).foldlM (fun ds (r : Fin 8) => do
    let mixValue ← seedMem.mixBlockValue regValue r
    return ds.setFin r (ds[r] ^^^ mixValue)) ds

/-- One program of `init_dataset_item`, on the item and `reg_value`. -/
def itemStep (seedMem : SeedMemory) (state : Vector U64 8 × U64) (prog : ScProgram) :
    Option (Vector U64 8 × U64) := do
  let ds ← executeCompactUnchecked prog.exec state.1
  let ds ← seedMem.mixItem state.2 ds
  return (ds, ds[prog.addressReg])

/-- `init_dataset_item`: the programs of the key in turn, each followed by a read of the cache. -/
def initDatasetItem (seedMem : SeedMemory) (itemNum : U64) : Option (Vector U64 8) := do
  let ds0 := (itemNum + 1) * superscalarMul0
  let ds := #v[ds0, ds0 ^^^ superscalarAdd1, ds0 ^^^ superscalarAdd2, ds0 ^^^ superscalarAdd3,
    ds0 ^^^ superscalarAdd4, ds0 ^^^ superscalarAdd5, ds0 ^^^ superscalarAdd6,
    ds0 ^^^ superscalarAdd7]
  let (ds, _) ← seedMem.programs.foldlM seedMem.itemStep (ds, itemNum)
  return ds

/-- `VmMemory::dataset_read`. -/
def datasetRead (seedMem : SeedMemory) (offset : U64) (reg : Vector U64 8) :
    Option (Vector U64 8) := do
  let rl ← seedMem.initDatasetItem (offset / cacheLineSize)
  return Vector.zipWith (· ^^^ ·) reg rl

/-! ## Reading never leaves the cache -/

/-- The index is within the cache, whatever the register holds. -/
lemma mixWordIndex_lt (regValue : U64) {r : ℕ} (hr : r < 8) :
    mixWordIndex regValue r < cacheWordCount := by
  have hmask : (regValue &&& cacheLineMask).toNat ≤ 4194303 := by
    rw [BitVec.toNat_and]
    exact Nat.and_le_right
  unfold mixWordIndex cacheWordCount cacheLineWords
  omega

lemma toNat_and_cacheLineMask (regValue : U64) :
    (regValue &&& cacheLineMask).toNat = regValue.toNat % 4194304 := by
  have hmask : cacheLineMask.toNat = 2 ^ 22 - 1 := rfl
  rw [BitVec.toNat_and, hmask, Nat.and_two_pow_sub_one_eq_mod]

/-- The flat index is the word of the byte offset of the cache line, in blocks of 1024 bytes. -/
lemma mixWordIndex_eq (regValue : U64) (r : ℕ) :
    mixWordIndex regValue r / argonBlockWords
        = (regValue.toNat % 4194304 * 64 + 8 * r) / 1024 ∧
      mixWordIndex regValue r % argonBlockWords
        = (regValue.toNat % 4194304 * 64 + 8 * r) % 1024 / 8 := by
  unfold mixWordIndex argonBlockWords cacheLineWords
  rw [toNat_and_cacheLineMask]
  omega

section
variable {seedMem : SeedMemory} (hsize : seedMem.blocks.size = randomxArgonMemory)
include hsize

/-- So the read is in bounds. -/
lemma exists_mixBlockValue (regValue : U64) {r : ℕ} (hr : r < 8) :
    ∃ value, seedMem.mixBlockValue regValue r = some value := by
  have hindex := mixWordIndex_lt regValue hr
  unfold mixBlockValue
  dsimp only
  rw [if_pos hindex]
  generalize mixWordIndex regValue r = index at hindex
  have hblock : index / argonBlockWords < seedMem.blocks.size := by
    rw [hsize]
    unfold argonBlockWords randomxArgonMemory cacheWordCount at *
    omega
  have hword : index % argonBlockWords
      < (seedMem.blocks[index / argonBlockWords]).toList.length := by
    rw [Vector.length_toList]
    exact Nat.mod_lt _ (by decide)
  rw [Array.getElem?_eq_getElem hblock, Option.bind_eq_bind, Option.bind_some,
    List.getElem?_eq_getElem hword]
  exact ⟨_, rfl⟩

/-- And an item is mixed without a panic. -/
lemma exists_mixItem (regValue : U64) (ds : Vector U64 8) :
    ∃ ds', seedMem.mixItem regValue ds = some ds' := by
  unfold mixItem
  apply exists_foldlM
  intro ds r _
  obtain ⟨value, hvalue⟩ := exists_mixBlockValue hsize regValue r.isLt
  rw [hvalue]
  exact ⟨_, rfl⟩

/-- A program that can be executed is executed without a panic. -/
lemma exists_itemStep {prog : ScProgram} (hprog : prog.Executable) (state : Vector U64 8 × U64) :
    ∃ state', seedMem.itemStep state prog = some state' := by
  obtain ⟨exec, haligned, hexec⟩ := hprog
  have hrun : executeCompactUnchecked prog.exec state.1
      = some (Superscalar.runSteps exec state.1) := by
    rw [hexec, Superscalar.executeCompactUnchecked_eq,
      Superscalar.executeRemainder_installPairHandlers haligned]
  obtain ⟨ds, hds⟩ := exists_mixItem hsize state.2 (Superscalar.runSteps exec state.1)
  unfold itemStep
  rw [hrun, Option.bind_eq_bind, Option.bind_some, hds]
  exact ⟨_, rfl⟩

end

/-- A dataset item is computed without a panic or an access outside the cache. -/
theorem exists_initDatasetItem (seedMem : SeedMemory) (itemNum : U64) :
    ∃ item, seedMem.initDatasetItem itemNum = some item := by
  have hstep : ∀ state, ∀ prog ∈ seedMem.programs,
      ∃ state', seedMem.itemStep state prog = some state' := by
    intro state prog hprog
    cases seedMem.valid with
    | inl hnil =>
      rw [hnil] at hprog
      exact absurd hprog List.not_mem_nil
    | inr hvalid => exact exists_itemStep hvalid.1 (hvalid.2 prog hprog) state
  unfold initDatasetItem
  dsimp only
  obtain ⟨state, hstate⟩ := exists_foldlM hstep _
  rw [hstate]
  exact ⟨_, rfl⟩

/-- A read of the dataset succeeds at every offset. -/
lemma exists_datasetRead (seedMem : SeedMemory) (offset : U64) (reg : Vector U64 8) :
    ∃ reg', seedMem.datasetRead offset reg = some reg' := by
  obtain ⟨item, hitem⟩ := seedMem.exists_initDatasetItem (offset / cacheLineSize)
  unfold datasetRead
  rw [hitem]
  exact ⟨_, rfl⟩

end SeedMemory

end RandomXSp1
