import RandomXSp1.Common

/-!
# The fixed Argon2d memory of `randomx-argon2`

`initialize_randomx` and what it calls, with Blake2b as a parameter. The memory starts out
uninitialised: its contents, and those of the scratch block of `fill_block_raw`, are arguments
of the model. Blocks are addressed by raw pointers, so an offset outside the allocation, or one
that the `debug_assert`s exclude, is `none`.
-/

namespace RandomXSp1.Argon2

/-! ## Constants and blocks -/

/-- Number of synchronization points between lanes per pass. -/
def syncPoints : ℕ := 4
def qwordsInBlock : ℕ := 128
abbrev prehashDigestLength : ℕ := 64
abbrev blake2bOutLength : ℕ := 64

def randomxLaneLength : ℕ := 262144
/-- The bytes of `RandomX\x03`. -/
def randomxSalt : List U8 := [0x52, 0x61, 0x6e, 0x64, 0x6f, 0x6d, 0x58, 0x03]
def randomxLanes : U32 := 1
def randomxHashLength : U32 := 0
def randomxIterations : U32 := 3
def argon2Version13 : U32 := 0x13
def argon2D : U32 := 0

/-- A memory block of 128 words. -/
abbrev Block := Vector U64 qwordsInBlock

def Block.zero : Block := Vector.replicate qwordsInBlock 0

/-- The bytes of a word in memory order, on a little-endian target. -/
def wordBytes (w : U64) : List U8 := (List.range 8).map fun k => (w >>> (8 * k)).setWidth 8

def Block.asU8 (block : Block) : List U8 := block.toList.flatMap wordBytes

/-- Eight bytes read as a word, on a little-endian target. -/
def wordOfBytes (bytes : List U8) : U64 :=
  bytes.foldr (fun byte w => (w <<< 8) ||| byte.setWidth 64) 0

/-- The block whose storage holds the bytes. -/
def Block.ofU8 (bytes : List U8) : Block :=
  Vector.ofFn fun k : Fin qwordsInBlock => wordOfBytes ((bytes.drop (8 * k)).take 8)

/-! ## The permutation -/

def fBlaMka (x y : U64) : U64 :=
  let m := 0xFFFFFFFF#64
  let xy := (x &&& m) * (y &&& m)
  x + (y + (xy + xy))

def rotr64 (w : U64) (c : ℕ) : U64 := w.rotateRight c

def g (a b c d : U64) : U64 × U64 × U64 × U64 :=
  let a := fBlaMka a b
  let d := rotr64 (d ^^^ a) 32
  let c := fBlaMka c d
  let b := rotr64 (b ^^^ c) 24
  let a := fBlaMka a b
  let d := rotr64 (d ^^^ a) 16
  let c := fBlaMka c d
  let b := rotr64 (b ^^^ c) 63
  (a, b, c, d)

/-- `g` on four of the sixteen variables. -/
def gAt (v : Vector U64 16) (a b c d : Fin 16) : Vector U64 16 :=
  let (a', b', c', d') := g v[a] v[b] v[c] v[d]
  (((v.setFin a a').setFin b b').setFin c c').setFin d d'

def p (v : Vector U64 16) : Vector U64 16 :=
  let v := gAt v 0 4 8 12
  let v := gAt v 1 5 9 13
  let v := gAt v 2 6 10 14
  let v := gAt v 3 7 11 15
  let v := gAt v 0 5 10 15
  let v := gAt v 1 6 11 12
  let v := gAt v 2 7 8 13
  gAt v 3 4 9 14

/-! ## Compression -/

/-- Word `j` of the first loop's iteration `i`. -/
def columnWord (i : Fin 8) (j : Fin 16) : Fin qwordsInBlock :=
  ⟨16 * i + j, by unfold qwordsInBlock; omega⟩

/-- Word `j` of the second loop's iteration `i`: the pairs at `2i`, `2i + 16`, …, `2i + 112`. -/
def rowWord (i : Fin 8) (j : Fin 16) : Fin qwordsInBlock :=
  ⟨2 * i + 16 * (j / 2) + j % 2, by unfold qwordsInBlock; omega⟩

/-- Sixteen writes. -/
def writeWords (words : Block) (position : Fin 16 → Fin qwordsInBlock) (v : Vector U64 16) :
    Block :=
  (List.finRange 16).foldl (fun words j => words.setFin (position j) v[j]) words

/-- Sixteen updates with `^=`. -/
def xorWords (words : Block) (position : Fin 16 → Fin qwordsInBlock) (v : Vector U64 16) :
    Block :=
  (List.finRange 16).foldl
    (fun words j => words.setFin (position j) (words[position j] ^^^ v[j])) words

/-- An iteration of the first loop, on `(next_words, block_r_words)`. -/
def columnStep (withXor : Bool) (prevBlock refBlock : Block) (state : Block × Block)
    (i : Fin 8) : Block × Block :=
  let v := Vector.ofFn fun j => refBlock[columnWord i j] ^^^ prevBlock[columnWord i j]
  let nextWords :=
    if withXor then xorWords state.1 (columnWord i) v else writeWords state.1 (columnWord i) v
  (nextWords, writeWords state.2 (columnWord i) (p v))

/-- An iteration of the second loop, on `next_words`. -/
def rowStep (blockRWords : Block) (nextWords : Block) (i : Fin 8) : Block :=
  let v := Vector.ofFn fun j => blockRWords[rowWord i j]
  xorWords nextWords (rowWord i) (p v)

/-- `scratch` is what the uninitialised scratch block holds at first. -/
def fillBlockRaw (withXor : Bool) (prevBlock refBlock nextWords scratch : Block) : Block :=
  let (nextWords, blockRWords) :=
    (List.finRange 8).foldl (columnStep withXor prevBlock refBlock) (nextWords, scratch)
  (List.finRange 8).foldl (rowStep blockRWords) nextWords

/-! ## Filling the memory -/

abbrev Memory := Vector Block randomxLaneLength

def laneLength : ℕ := 262144
def segmentLength : ℕ := 65536
def laneMask : U32 := 262143

/-- The `u64` computation of `ref_offset`. -/
def refOffset (firstPass : Bool) (slice currOffset : ℕ) (pseudoRand : U64) : U64 :=
  let indexInSegment := currOffset - slice * segmentLength
  let referenceAreaSize : U64 := BitVec.ofNat 64
    (if firstPass then currOffset - 1 else laneLength - segmentLength + indexInSegment - 1)
  let relativePosition := pseudoRand &&& 0xffffffff#64
  let relativePosition := (relativePosition * relativePosition) >>> 32
  let relativePosition :=
    referenceAreaSize - 1#64 - ((referenceAreaSize * relativePosition) >>> 32)
  let startPosition : U64 := BitVec.ofNat 64
    (if firstPass || slice == syncPoints - 1 then 0 else (slice + 1) * segmentLength)
  let absolutePosition := startPosition + relativePosition
  if firstPass || slice == syncPoints - 1 then absolutePosition
  else absolutePosition &&& laneMask.setWidth 64

/-- The `debug_assert`s before the compression: the current block is neither input, and in the
first pass both inputs are blocks written before it. -/
def inputsAllowed (firstPass : Bool) (prevOffset refOffset currOffset : ℕ) : Bool :=
  prevOffset != currOffset && refOffset != currOffset
    && (!firstPass || decide (prevOffset < currOffset) && decide (refOffset < currOffset))

section
variable (scratch : Block)

/-- An iteration of the segment loop, on the memory and `prev_offset`. -/
def segmentStep (firstPass withXor : Bool) (slice : ℕ) (state : Memory × ℕ) (currOffset : ℕ) :
    Option (Memory × ℕ) := do
  let (blocks, prevOffset) := state
  let prevBlock ← blocks[prevOffset]?
  let pseudoRand := prevBlock[0]
  let refOffset := (refOffset firstPass slice currOffset pseudoRand).toNat
  let refBlock ← blocks[refOffset]?
  let currBlock ← blocks[currOffset]?
  if inputsAllowed firstPass prevOffset refOffset currOffset then
    let next := fillBlockRaw withXor prevBlock refBlock currBlock scratch
    some (blocks.setIfInBounds currOffset next, currOffset)
  else none

def fillMemoryBlocksRandomxSegment (firstPass withXor : Bool) (slice : ℕ) (blocks : Memory) :
    Option Memory := do
  let startingIndex := if firstPass && slice == 0 then 2 else 0
  let segmentStart := slice * segmentLength
  let segmentEnd := segmentStart + segmentLength
  let firstOffset := segmentStart + startingIndex
  let prevOffset := (BitVec.ofNat 32 firstOffset - 1) &&& laneMask
  let (blocks, _) ← (List.range' firstOffset (segmentEnd - firstOffset)).foldlM
    (segmentStep scratch firstPass withXor slice) (blocks, prevOffset.toNat)
  return blocks

def fillMemoryBlocksRandomxPass (firstPass withXor : Bool) (blocks : Memory) : Option Memory := do
  let blocks ← fillMemoryBlocksRandomxSegment scratch firstPass withXor 0 blocks
  let blocks ← fillMemoryBlocksRandomxSegment scratch firstPass withXor 1 blocks
  let blocks ← fillMemoryBlocksRandomxSegment scratch firstPass withXor 2 blocks
  fillMemoryBlocksRandomxSegment scratch firstPass withXor 3 blocks

/-! ## Hashing -/

variable (blake2b : (len : ℕ) → List U8 → Vector U8 len)

/-- `out[pos..pos + bytes.len()].copy_from_slice(bytes)`. -/
def writeAt (out : List U8) (pos : ℕ) (bytes : List U8) : List U8 :=
  out.take pos ++ bytes ++ out.drop (pos + bytes.length)

/-- The loop of `hprime` and its last hash. -/
def hprimeLoop (outLen : ℕ) (out : List U8) (outBuffer : Vector U8 blake2bOutLength)
    (outPos toProduce : ℕ) : List U8 :=
  if toProduce > blake2bOutLength then
    let outBuffer := blake2b blake2bOutLength outBuffer.toList
    hprimeLoop outLen (writeAt out outPos (outBuffer.toList.take 32)) outBuffer (outPos + 32)
      (toProduce - 32)
  else writeAt out outPos (blake2b (outLen - outPos) outBuffer.toList).toList
termination_by toProduce
decreasing_by
  unfold blake2bOutLength at *
  omega

def hprime (out input : List U8) : List U8 :=
  let outLen := out.length
  if outLen ≤ blake2bOutLength then
    (blake2b outLen (toLeBytes (BitVec.ofNat 32 outLen) ++ input)).toList
  else
    let outBuffer := blake2b blake2bOutLength (toLeBytes (BitVec.ofNat 32 outLen) ++ input)
    hprimeLoop blake2b outLen (writeAt out 0 (outBuffer.toList.take 32)) outBuffer 32 (outLen - 32)

/-- The digest and the eight zero bytes after it. -/
def initialHash (key : List U8) : List U8 :=
  let parameters := [randomxLanes, randomxHashLength, BitVec.ofNat 32 randomxLaneLength,
    randomxIterations, argon2Version13, argon2D].flatMap toLeBytes
  (blake2b prehashDigestLength
    (parameters ++ toLeBytes (BitVec.ofNat 32 key.length) ++ key ++
      toLeBytes (BitVec.ofNat 32 randomxSalt.length) ++ randomxSalt ++
      toLeBytes 0 ++ toLeBytes 0)).toList ++ List.replicate 8 0

/-- The block of the seed `block_index`. -/
def seedBlock (initialHash : List U8) (blockIndex : ℕ) : Block :=
  let initialHash :=
    writeAt initialHash prehashDigestLength (toLeBytes (BitVec.ofNat 32 blockIndex))
  let initialHash := writeAt initialHash (prehashDigestLength + 4) (toLeBytes 0)
  Block.ofU8 (hprime blake2b Block.zero.asU8 initialHash)

/-- The whole cache, from an allocation with the contents `uninit`. -/
def initializeRandomx (uninit : Memory) (key : List U8) : Option Memory := do
  let initialHash := initialHash blake2b key
  let blocks := uninit.set 0 (seedBlock blake2b initialHash 0) (by decide)
  let blocks := blocks.set 1 (seedBlock blake2b initialHash 1) (by decide)
  let blocks ← fillMemoryBlocksRandomxPass scratch true false blocks
  let blocks ← fillMemoryBlocksRandomxPass scratch false true blocks
  fillMemoryBlocksRandomxPass scratch false true blocks

end

end RandomXSp1.Argon2
