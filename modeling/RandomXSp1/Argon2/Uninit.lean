import RandomXSp1.Argon2.Core
import RandomXSp1.Checked

/-!
# Filling an uninitialised memory

`initialize_randomx` once more, over an allocation whose words are `none` until they are written.
What the source promises in its `SAFETY` comments is checked on the way: reading a word that is
not written yet, an offset outside the lane, an input of the compression that aliases its output,
and an operation on `u32` or `u64` that leaves its type all end the run. The iterations of the
segment loops are recorded with the offsets they use and the memory around them.
-/

namespace RandomXSp1.Argon2

/-! ## The reference offset -/

def checkedReferenceAreaSize (firstPass : Bool) (currOffset indexInSegment : ℕ) : Option ℕ :=
  if firstPass then checkedSub currOffset 1
  else do
    let others ← checkedSub laneLength segmentLength
    checkedSub (← checkedAdd 32 others indexInSegment) 1

def checkedRelativePosition (referenceAreaSize : ℕ) (pseudoRand : U64) : Option ℕ := do
  let relativePosition := (pseudoRand &&& 0xffffffff#64).toNat
  let relativePosition := (← checkedMul 64 relativePosition relativePosition) >>> 32
  let product ← checkedMul 64 referenceAreaSize relativePosition
  checkedSub (← checkedSub referenceAreaSize 1) (product >>> 32)

def checkedStartPosition (firstPass : Bool) (slice : ℕ) : Option ℕ :=
  if firstPass || slice == syncPoints - 1 then some 0
  else do checkedMul 32 (← checkedAdd 32 slice 1) segmentLength

/-- The computation of `ref_offset` in exact arithmetic, as long as it stays in its types. -/
def checkedRefOffset (firstPass : Bool) (slice segmentStart currOffset : ℕ) (pseudoRand : U64) :
    Option ℕ := do
  let indexInSegment ← checkedSub currOffset segmentStart
  let referenceAreaSize ← checkedReferenceAreaSize firstPass currOffset indexInSegment
  let relativePosition ← checkedRelativePosition referenceAreaSize pseudoRand
  let startPosition ← checkedStartPosition firstPass slice
  let absolutePosition ← checkedAdd 64 startPosition relativePosition
  if firstPass || slice == syncPoints - 1 then
    -- the `debug_assert` of the branch without a mask
    if absolutePosition < laneLength then some absolutePosition else none
  else some (absolutePosition &&& laneMask.toNat)

/-! ## Words and blocks that may be uninitialised -/

/-- The storage of a block. -/
abbrev Cell := Vector (Option U64) qwordsInBlock

namespace Cell

def uninit : Cell := Vector.replicate qwordsInBlock none

def init (block : Block) : Cell := block.map some

/-- The block, if every word of it was written. -/
def assumeInit (cell : Cell) : Option Block :=
  if ∀ k, (cell.get k).isSome then some (cell.map fun word => word.getD 0) else none

/-- Sixteen reads. -/
def readWords (cell : Cell) (position : Fin 16 → Fin qwordsInBlock) : Option (Vector U64 16) :=
  if ∀ j, (cell.get (position j)).isSome then
    some (Vector.ofFn fun j => (cell.get (position j)).getD 0)
  else none

def writeWords (cell : Cell) (position : Fin 16 → Fin qwordsInBlock) (v : Vector U64 16) : Cell :=
  (List.finRange 16).foldl (fun cell j => cell.setFin (position j) (some (v.get j))) cell

/-- Sixteen updates with `^=`, each of which reads its word. -/
def xorWords (cell : Cell) (position : Fin 16 → Fin qwordsInBlock) (v : Vector U64 16) :
    Option Cell :=
  (List.finRange 16).foldlM
    (fun cell j => do
      let word ← cell.get (position j)
      return cell.setFin (position j) (some (word ^^^ v.get j)))
    cell

/-- An iteration of the first loop, on `(next_words, block_r_words)`. -/
def columnStep (withXor : Bool) (prevBlock refBlock : Block) (state : Cell × Cell) (i : Fin 8) :
    Option (Cell × Cell) := do
  let v := Vector.ofFn fun j => refBlock.get (columnWord i j) ^^^ prevBlock.get (columnWord i j)
  let nextWords ←
    if withXor then xorWords state.1 (columnWord i) v
    else some (writeWords state.1 (columnWord i) v)
  return (nextWords, writeWords state.2 (columnWord i) (p v))

/-- An iteration of the second loop, on `next_words`. -/
def rowStep (blockRWords : Cell) (nextWords : Cell) (i : Fin 8) : Option Cell := do
  let v ← blockRWords.readWords (rowWord i)
  nextWords.xorWords (rowWord i) (p v)

/-- `fill_block_raw` over a destination and a scratch block that may be uninitialised. -/
def fillBlockRaw (withXor : Bool) (prevBlock refBlock : Block) (nextWords : Cell) :
    Option Cell := do
  let (nextWords, blockRWords) ←
    (List.finRange 8).foldlM (columnStep withXor prevBlock refBlock) (nextWords, uninit)
  (List.finRange 8).foldlM (rowStep blockRWords) nextWords

end Cell

/-! ## The loops -/

/-- The storage of the lane. -/
abbrev Cells := Vector Cell randomxLaneLength

namespace Cells

/-- The block at the offset is in the lane, and all of its words were written. -/
def Written (cells : Cells) (offset : ℕ) : Prop :=
  ∃ cell block, cells[offset]? = some cell ∧ cell.assumeInit = some block

/-- `blocks.add(offset)` dereferenced as a block. -/
def read (cells : Cells) (offset : ℕ) : Option Block := do
  (← cells[offset]?).assumeInit

/-- The storage of an initialised lane. -/
def init (blocks : Memory) : Cells := blocks.map Cell.init

/-- `assume_init` on the whole lane. -/
def assumeInit (cells : Cells) : Option Memory := cells.mapM Cell.assumeInit

end Cells

/-- An iteration of the segment loop. -/
structure Access where
  firstPass : Bool
  slice : ℕ
  prevOffset : ℕ
  refOffset : ℕ
  currOffset : ℕ
  before : Cells
  after : Cells

/-- The locals of the segment loop, with the record of all iterations so far. -/
structure Filling where
  cells : Cells
  prevOffset : ℕ
  trace : List Access

namespace Filling

def segmentStep (firstPass withXor : Bool) (slice segmentStart : ℕ) (state : Filling)
    (currOffset : ℕ) : Option Filling := do
  let prevBlock ← state.cells.read state.prevOffset
  let pseudoRand ← prevBlock[0]?
  let refOffset ← checkedRefOffset firstPass slice segmentStart currOffset pseudoRand
  let refBlock ← state.cells.read refOffset
  let cell ← state.cells[currOffset]?
  if inputsAllowed firstPass state.prevOffset refOffset currOffset then
    let next ← Cell.fillBlockRaw withXor prevBlock refBlock cell
    let cells := state.cells.setIfInBounds currOffset next
    return {
      cells
      prevOffset := currOffset
      trace := state.trace ++ [{
        firstPass, slice, refOffset, currOffset
        prevOffset := state.prevOffset
        before := state.cells
        after := cells }] }
  else none

def fillMemoryBlocksRandomxSegment (firstPass withXor : Bool) (slice : ℕ)
    (state : Cells × List Access) : Option (Cells × List Access) := do
  let startingIndex := if firstPass && slice == 0 then 2 else 0
  let segmentStart ← checkedMul 32 slice segmentLength
  let segmentEnd ← checkedAdd 32 segmentStart segmentLength
  let firstOffset ← checkedAdd 32 segmentStart startingIndex
  let prevOffset := (BitVec.ofNat 32 firstOffset - 1) &&& laneMask
  let state ← (List.range' firstOffset (segmentEnd - firstOffset)).foldlM
    (segmentStep firstPass withXor slice segmentStart)
    { cells := state.1, prevOffset := prevOffset.toNat, trace := state.2 }
  return (state.cells, state.trace)

def fillMemoryBlocksRandomxPass (firstPass withXor : Bool) (state : Cells × List Access) :
    Option (Cells × List Access) := do
  let state ← fillMemoryBlocksRandomxSegment firstPass withXor 0 state
  let state ← fillMemoryBlocksRandomxSegment firstPass withXor 1 state
  let state ← fillMemoryBlocksRandomxSegment firstPass withXor 2 state
  fillMemoryBlocksRandomxSegment firstPass withXor 3 state

/-- The whole cache and the record of the three passes, from an uninitialised allocation. -/
def initializeRandomx (blake2b : (len : ℕ) → List U8 → Vector U8 len) (key : List U8) :
    Option (Memory × List Access) := do
  let initialHash := initialHash blake2b key
  let cells : Cells := Vector.replicate randomxLaneLength Cell.uninit
  let cells := cells.setIfInBounds 0 (Cell.init (seedBlock blake2b initialHash 0))
  let cells := cells.setIfInBounds 1 (Cell.init (seedBlock blake2b initialHash 1))
  let (cells, trace) ← fillMemoryBlocksRandomxPass true false (cells, [])
  let blocks ← cells.assumeInit
  let (cells, trace) ← fillMemoryBlocksRandomxPass false true (Cells.init blocks, trace)
  let (cells, trace) ← fillMemoryBlocksRandomxPass false true (cells, trace)
  let blocks ← cells.assumeInit
  return (blocks, trace)

end Filling

end RandomXSp1.Argon2
