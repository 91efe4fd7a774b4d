import RandomXSp1.Argon2.Core

/-!
# Textbook Argon2d

Argon2d, version 0x13, with one lane, as RFC 9106 defines it: one loop over passes, slices and
indices, a reference index by modular arithmetic, and a compression that goes through whole
intermediate blocks. The segment length, the number of passes and the inputs are parameters.
Blocks and the little-endian bytes of an integer are those of `Argon2.Core`.
-/

namespace RandomXSp1.Argon2.Textbook

/-! ## The compression function -/

/-- The 64-bit value of the low half of a word. -/
def trunc (a : U64) : U64 := (a.setWidth 32).setWidth 64

def gb (a b c d : U64) : U64 × U64 × U64 × U64 :=
  let a := a + b + 2 * trunc a * trunc b
  let d := (d ^^^ a).rotateRight 32
  let c := c + d + 2 * trunc c * trunc d
  let b := (b ^^^ c).rotateRight 24
  let a := a + b + 2 * trunc a * trunc b
  let d := (d ^^^ a).rotateRight 16
  let c := c + d + 2 * trunc c * trunc d
  let b := (b ^^^ c).rotateRight 63
  (a, b, c, d)

/-- The columns of the 4 × 4 matrix of words, then its diagonals. -/
def quadruples : List (Fin 16 × Fin 16 × Fin 16 × Fin 16) :=
  [(0, 4, 8, 12), (1, 5, 9, 13), (2, 6, 10, 14), (3, 7, 11, 15),
    (0, 5, 10, 15), (1, 6, 11, 12), (2, 7, 8, 13), (3, 4, 9, 14)]

/-- The permutation `P` on sixteen words. -/
def permutation (v : Vector U64 16) : Vector U64 16 :=
  quadruples.foldl (fun v (a, b, c, d) =>
    let (a', b', c', d') := gb v[a] v[b] v[c] v[d]
    (((v.setFin a a').setFin b b').setFin c c').setFin d d') v

/-- Word `j` of the eight registers in row `i` of the 8 × 8 matrix of two-word registers. -/
def row (i : Fin 8) (j : Fin 16) : Fin qwordsInBlock :=
  ⟨2 * (8 * i + j / 2) + j % 2, by unfold qwordsInBlock; omega⟩

/-- Word `j` of the eight registers in column `i`. -/
def column (i : Fin 8) (j : Fin 16) : Fin qwordsInBlock :=
  ⟨2 * (8 * (j / 2) + i) + j % 2, by unfold qwordsInBlock; omega⟩

/-- The row of word `k` and its number there. -/
def rowOf (k : Fin qwordsInBlock) : Fin 8 × Fin 16 :=
  (⟨k / 16, by have := k.isLt; unfold qwordsInBlock at this; omega⟩, ⟨k % 16, by omega⟩)

/-- The column of word `k` and its number there. -/
def columnOf (k : Fin qwordsInBlock) : Fin 8 × Fin 16 :=
  (⟨k / 2 % 8, by omega⟩,
    ⟨2 * (k / 16) + k % 2, by have := k.isLt; unfold qwordsInBlock at this; omega⟩)

def permuteRows (r : Block) : Block :=
  Vector.ofFn fun k =>
    let (i, j) := rowOf k
    (permutation (Vector.ofFn fun j => r[row i j]))[j]

def permuteColumns (q : Block) : Block :=
  Vector.ofFn fun k =>
    let (i, j) := columnOf k
    (permutation (Vector.ofFn fun j => q[column i j]))[j]

def xorBlocks (x y : Block) : Block := Vector.ofFn fun k : Fin qwordsInBlock => x[k] ^^^ y[k]

/-- The compression function `G`. -/
def compress (x y : Block) : Block :=
  let r := xorBlocks x y
  let z := permuteColumns (permuteRows r)
  xorBlocks z r

/-! ## Hashing -/

section
variable (blake2b : (len : ℕ) → List U8 → Vector U8 len)

/-- The chained 64-byte hash `V_{i+1}` for the tag length and input. -/
def hPrimeHash (length : ℕ) (input : List U8) : ℕ → Vector U8 64
  | 0 => blake2b 64 (toLeBytes (BitVec.ofNat 32 length) ++ input)
  | i + 1 => blake2b 64 (hPrimeHash length input i).toList

/-- The variable-length hash function `H'`. -/
def hPrime (length : ℕ) (input : List U8) : List U8 :=
  if length ≤ 64 then (blake2b length (toLeBytes (BitVec.ofNat 32 length) ++ input)).toList
  else
    let r := (length + 31) / 32 - 2
    (List.range r).flatMap (fun i => (hPrimeHash blake2b length input i).toList.take 32)
      ++ (blake2b (length - 32 * r) (hPrimeHash blake2b length input (r - 1)).toList).toList

/-- A byte string whose length fits in the four bytes that encode it. -/
structure ByteString where
  bytes : List U8
  length_lt : bytes.length < 2 ^ 32

/-- The length in four little-endian bytes, then the bytes. -/
def ByteString.encode (s : ByteString) : List U8 :=
  toLeBytes (BitVec.ofNatLT s.bytes.length s.length_lt) ++ s.bytes

/-- The inputs of Argon2d with one lane. -/
structure Inputs where
  password : ByteString
  salt : ByteString
  secret : ByteString
  associatedData : ByteString
  tagLength : U32
  memorySize : U32
  passes : U32

def parallelism : U32 := 1
def version : U32 := 0x13
def argon2dType : U32 := 0

/-- `H_0`. -/
def seed (inputs : Inputs) : Vector U8 64 :=
  blake2b 64 (toLeBytes parallelism ++ toLeBytes inputs.tagLength ++ toLeBytes inputs.memorySize
    ++ toLeBytes inputs.passes ++ toLeBytes version ++ toLeBytes argon2dType
    ++ inputs.password.encode ++ inputs.salt.encode ++ inputs.secret.encode
    ++ inputs.associatedData.encode)

/-- The first blocks of the lane. -/
def startBlock (inputs : Inputs) (index : U32) : Block :=
  Block.ofU8 (hPrime blake2b 1024
    ((seed blake2b inputs).toList ++ toLeBytes index ++ toLeBytes 0))

end

/-! ## Indexing and the loop -/

section
variable (segmentLength : ℕ)

/-- The blocks that can be referenced: all of the last three slices that are finished, and those
of the current segment except the previous block. -/
def referenceArea (pass slice index : ℕ) : ℕ :=
  (if pass = 0 then slice else 3) * segmentLength + index - 1

/-- The first block of the reference area. -/
def referenceStart (pass slice : ℕ) : ℕ :=
  if pass = 0 then 0 else (slice + 1) % 4 * segmentLength

/-- The index of the reference block for the pseudo-random word of the previous block. -/
def referenceIndex (pass slice index : ℕ) (pseudoRand : U64) : ℕ :=
  let j1 := pseudoRand.toNat % 2 ^ 32
  let area := referenceArea segmentLength pass slice index
  let x := j1 ^ 2 / 2 ^ 32
  let y := area * x / 2 ^ 32
  let z := area - 1 - y
  (referenceStart segmentLength pass slice + z) % (4 * segmentLength)

/-- One step of the loop. The two first blocks of the lane are not computed by it. -/
def step (pass slice : ℕ) (memory : ℕ → Block) (index : ℕ) : ℕ → Block :=
  if pass = 0 ∧ slice = 0 ∧ index < 2 then memory
  else
    let current := slice * segmentLength + index
    let previous := memory ((current + 4 * segmentLength - 1) % (4 * segmentLength))
    let reference := memory (referenceIndex segmentLength pass slice index previous[(0 : Fin 128)])
    let block := compress previous reference
    Function.update memory current
      (if pass = 0 then block else xorBlocks block (memory current))

def fillSlice (pass : ℕ) (memory : ℕ → Block) (slice : ℕ) : ℕ → Block :=
  (List.range segmentLength).foldl (step segmentLength pass slice) memory

def fillPass (memory : ℕ → Block) (pass : ℕ) : ℕ → Block :=
  (List.range 4).foldl (fillSlice segmentLength pass) memory

/-- The memory after the given number of passes. -/
def fill (passes : ℕ) (memory : ℕ → Block) : ℕ → Block :=
  (List.range passes).foldl (fillPass segmentLength) memory

end

/-- The memory of Argon2d. What it holds at first after the first two blocks is never read. -/
def memory (blake2b : (len : ℕ) → List U8 → Vector U8 len) (inputs : Inputs) : ℕ → Block :=
  let segmentLength := inputs.memorySize.toNat / 4
  let start (i : ℕ) : Block :=
    if i < 2 then startBlock blake2b inputs (BitVec.ofNat 32 i) else Block.zero
  fill segmentLength inputs.passes.toNat start

/-- What RandomX passes for a key: no tag, secret or associated data. -/
def randomxInputs (key : ByteString) : Inputs where
  password := key
  salt := ⟨randomxSalt, by decide⟩
  secret := ⟨[], by decide⟩
  associatedData := ⟨[], by decide⟩
  tagLength := 0
  memorySize := 262144
  passes := 3

end RandomXSp1.Argon2.Textbook
