import RandomXSp1.Common

/-!
# AES rounds and the generators built on them

The software path of `m128.rs` and the functions of `hash.rs`: single AES rounds through
precomputed tables, the scratchpad fill, the scratchpad hash and the program generator. A
`m128i` is its `u128`.
-/

namespace RandomXSp1.Aes

/-! ## Tables -/

/-- `SBOX`, in rows of sixteen. -/
def sbox : Vector (Vector U8 16) 16 := #v[
  #v[0x63, 0x7c, 0x77, 0x7b, 0xf2, 0x6b, 0x6f, 0xc5, 0x30, 0x01, 0x67, 0x2b, 0xfe, 0xd7, 0xab, 0x76],
  #v[0xca, 0x82, 0xc9, 0x7d, 0xfa, 0x59, 0x47, 0xf0, 0xad, 0xd4, 0xa2, 0xaf, 0x9c, 0xa4, 0x72, 0xc0],
  #v[0xb7, 0xfd, 0x93, 0x26, 0x36, 0x3f, 0xf7, 0xcc, 0x34, 0xa5, 0xe5, 0xf1, 0x71, 0xd8, 0x31, 0x15],
  #v[0x04, 0xc7, 0x23, 0xc3, 0x18, 0x96, 0x05, 0x9a, 0x07, 0x12, 0x80, 0xe2, 0xeb, 0x27, 0xb2, 0x75],
  #v[0x09, 0x83, 0x2c, 0x1a, 0x1b, 0x6e, 0x5a, 0xa0, 0x52, 0x3b, 0xd6, 0xb3, 0x29, 0xe3, 0x2f, 0x84],
  #v[0x53, 0xd1, 0x00, 0xed, 0x20, 0xfc, 0xb1, 0x5b, 0x6a, 0xcb, 0xbe, 0x39, 0x4a, 0x4c, 0x58, 0xcf],
  #v[0xd0, 0xef, 0xaa, 0xfb, 0x43, 0x4d, 0x33, 0x85, 0x45, 0xf9, 0x02, 0x7f, 0x50, 0x3c, 0x9f, 0xa8],
  #v[0x51, 0xa3, 0x40, 0x8f, 0x92, 0x9d, 0x38, 0xf5, 0xbc, 0xb6, 0xda, 0x21, 0x10, 0xff, 0xf3, 0xd2],
  #v[0xcd, 0x0c, 0x13, 0xec, 0x5f, 0x97, 0x44, 0x17, 0xc4, 0xa7, 0x7e, 0x3d, 0x64, 0x5d, 0x19, 0x73],
  #v[0x60, 0x81, 0x4f, 0xdc, 0x22, 0x2a, 0x90, 0x88, 0x46, 0xee, 0xb8, 0x14, 0xde, 0x5e, 0x0b, 0xdb],
  #v[0xe0, 0x32, 0x3a, 0x0a, 0x49, 0x06, 0x24, 0x5c, 0xc2, 0xd3, 0xac, 0x62, 0x91, 0x95, 0xe4, 0x79],
  #v[0xe7, 0xc8, 0x37, 0x6d, 0x8d, 0xd5, 0x4e, 0xa9, 0x6c, 0x56, 0xf4, 0xea, 0x65, 0x7a, 0xae, 0x08],
  #v[0xba, 0x78, 0x25, 0x2e, 0x1c, 0xa6, 0xb4, 0xc6, 0xe8, 0xdd, 0x74, 0x1f, 0x4b, 0xbd, 0x8b, 0x8a],
  #v[0x70, 0x3e, 0xb5, 0x66, 0x48, 0x03, 0xf6, 0x0e, 0x61, 0x35, 0x57, 0xb9, 0x86, 0xc1, 0x1d, 0x9e],
  #v[0xe1, 0xf8, 0x98, 0x11, 0x69, 0xd9, 0x8e, 0x94, 0x9b, 0x1e, 0x87, 0xe9, 0xce, 0x55, 0x28, 0xdf],
  #v[0x8c, 0xa1, 0x89, 0x0d, 0xbf, 0xe6, 0x42, 0x68, 0x41, 0x99, 0x2d, 0x0f, 0xb0, 0x54, 0xbb, 0x16]]

/-- `INV_SBOX`, in rows of sixteen. -/
def invSbox : Vector (Vector U8 16) 16 := #v[
  #v[0x52, 0x09, 0x6a, 0xd5, 0x30, 0x36, 0xa5, 0x38, 0xbf, 0x40, 0xa3, 0x9e, 0x81, 0xf3, 0xd7, 0xfb],
  #v[0x7c, 0xe3, 0x39, 0x82, 0x9b, 0x2f, 0xff, 0x87, 0x34, 0x8e, 0x43, 0x44, 0xc4, 0xde, 0xe9, 0xcb],
  #v[0x54, 0x7b, 0x94, 0x32, 0xa6, 0xc2, 0x23, 0x3d, 0xee, 0x4c, 0x95, 0x0b, 0x42, 0xfa, 0xc3, 0x4e],
  #v[0x08, 0x2e, 0xa1, 0x66, 0x28, 0xd9, 0x24, 0xb2, 0x76, 0x5b, 0xa2, 0x49, 0x6d, 0x8b, 0xd1, 0x25],
  #v[0x72, 0xf8, 0xf6, 0x64, 0x86, 0x68, 0x98, 0x16, 0xd4, 0xa4, 0x5c, 0xcc, 0x5d, 0x65, 0xb6, 0x92],
  #v[0x6c, 0x70, 0x48, 0x50, 0xfd, 0xed, 0xb9, 0xda, 0x5e, 0x15, 0x46, 0x57, 0xa7, 0x8d, 0x9d, 0x84],
  #v[0x90, 0xd8, 0xab, 0x00, 0x8c, 0xbc, 0xd3, 0x0a, 0xf7, 0xe4, 0x58, 0x05, 0xb8, 0xb3, 0x45, 0x06],
  #v[0xd0, 0x2c, 0x1e, 0x8f, 0xca, 0x3f, 0x0f, 0x02, 0xc1, 0xaf, 0xbd, 0x03, 0x01, 0x13, 0x8a, 0x6b],
  #v[0x3a, 0x91, 0x11, 0x41, 0x4f, 0x67, 0xdc, 0xea, 0x97, 0xf2, 0xcf, 0xce, 0xf0, 0xb4, 0xe6, 0x73],
  #v[0x96, 0xac, 0x74, 0x22, 0xe7, 0xad, 0x35, 0x85, 0xe2, 0xf9, 0x37, 0xe8, 0x1c, 0x75, 0xdf, 0x6e],
  #v[0x47, 0xf1, 0x1a, 0x71, 0x1d, 0x29, 0xc5, 0x89, 0x6f, 0xb7, 0x62, 0x0e, 0xaa, 0x18, 0xbe, 0x1b],
  #v[0xfc, 0x56, 0x3e, 0x4b, 0xc6, 0xd2, 0x79, 0x20, 0x9a, 0xdb, 0xc0, 0xfe, 0x78, 0xcd, 0x5a, 0xf4],
  #v[0x1f, 0xdd, 0xa8, 0x33, 0x88, 0x07, 0xc7, 0x31, 0xb1, 0x12, 0x10, 0x59, 0x27, 0x80, 0xec, 0x5f],
  #v[0x60, 0x51, 0x7f, 0xa9, 0x19, 0xb5, 0x4a, 0x0d, 0x2d, 0xe5, 0x7a, 0x9f, 0x93, 0xc9, 0x9c, 0xef],
  #v[0xa0, 0xe0, 0x3b, 0x4d, 0xae, 0x2a, 0xf5, 0xb0, 0xc8, 0xeb, 0xbb, 0x3c, 0x83, 0x53, 0x99, 0x61],
  #v[0x17, 0x2b, 0x04, 0x7e, 0xba, 0x77, 0xd6, 0x26, 0xe1, 0x69, 0x14, 0x63, 0x55, 0x21, 0x0c, 0x7d]]

/-- An entry of a table of 256 bytes. -/
def lookup (table : Vector (Vector U8 16) 16) (i : U8) : U8 :=
  (table.get ⟨i.toNat / 16, by have := i.isLt; omega⟩).get ⟨i.toNat % 16, by omega⟩

def xtime (a : U8) : U8 := if a &&& 0x80 ≠ 0 then (a <<< 1) ^^^ 0x1b else a <<< 1

/-- The word with the given bytes, lowest first. -/
def word (b0 b1 b2 b3 : U8) : U32 :=
  b0.setWidth 32 ||| (b1.setWidth 32 <<< 8) ||| (b2.setWidth 32 <<< 16) ||| (b3.setWidth 32 <<< 24)

/-- The four tables of a direction, each read at a byte. -/
structure Tables where
  t0 : U8 → U32
  t1 : U8 → U32
  t2 : U8 → U32
  t3 : U8 → U32

def encTable : Tables :=
  let entry (f : U8 → U8 → U8 → U32) (i : U8) : U32 :=
    let s := lookup sbox i
    let x2 := xtime s
    f s x2 (x2 ^^^ s)
  { t0 := entry fun s x2 x3 => word x2 s s x3
    t1 := entry fun s x2 x3 => word x3 x2 s s
    t2 := entry fun s x2 x3 => word s x3 x2 s
    t3 := entry fun s x2 x3 => word s s x3 x2 }

def decTable : Tables :=
  let entry (f : U8 → U8 → U8 → U8 → U32) (i : U8) : U32 :=
    let s := lookup invSbox i
    let x2 := xtime s
    let x4 := xtime x2
    let x8 := xtime x4
    f (x8 ^^^ s) (x8 ^^^ x2 ^^^ s) (x8 ^^^ x4 ^^^ s) (x8 ^^^ x4 ^^^ x2)
  { t0 := entry fun x9 xb xd xe => word xe x9 xd xb
    t1 := entry fun x9 xb xd xe => word xb xe x9 xd
    t2 := entry fun x9 xb xd xe => word xd xb xe x9
    t3 := entry fun x9 xb xd xe => word x9 xd xb xe }

/-! ## Rounds -/

/-- `state.to_le_bytes()[i]`. -/
def byte (state : U128) (i : ℕ) : U8 := (state >>> (8 * i)).setWidth 8

/-- The state whose columns are the given words, lowest first. -/
def ofColumns (out : ℕ → U32) : U128 :=
  (out 0).setWidth 128 ||| ((out 1).setWidth 128 <<< 32) ||| ((out 2).setWidth 128 <<< 64)
    ||| ((out 3).setWidth 128 <<< 96)

def aesenc (state key : U128) : U128 :=
  let out (c : ℕ) : U32 :=
    let b0 := byte state (c % 4 * 4)
    let b1 := byte state ((c + 1) % 4 * 4 + 1)
    let b2 := byte state ((c + 2) % 4 * 4 + 2)
    let b3 := byte state ((c + 3) % 4 * 4 + 3)
    encTable.t0 b0 ^^^ encTable.t1 b1 ^^^ encTable.t2 b2 ^^^ encTable.t3 b3
  ofColumns out ^^^ key

def aesdec (state key : U128) : U128 :=
  let out (c : ℕ) : U32 :=
    let b0 := byte state (c % 4 * 4)
    let b1 := byte state ((c + 3) % 4 * 4 + 1)
    let b2 := byte state ((c + 2) % 4 * 4 + 2)
    let b3 := byte state ((c + 1) % 4 * 4 + 3)
    decTable.t0 b0 ^^^ decTable.t1 b1 ^^^ decTable.t2 b2 ^^^ decTable.t3 b3
  ofColumns out ^^^ key

/-! ## Conversions of `m128i` -/

def fromI32 (i3 i2 i1 i0 : U32) : U128 :=
  (i3.signExtend 128 <<< 96) ||| (i2.setWidth 128 <<< 64) ||| (i1.setWidth 128 <<< 32)
    ||| i0.setWidth 128

def fromU64 (u1 u0 : U64) : U128 := (u1.setWidth 128 <<< 64) ||| u0.setWidth 128

/-- The low word of `as_i64`. -/
def low (state : U128) : U64 := state.setWidth 64

/-- The high word of `as_i64`. -/
def high (state : U128) : U64 := (state >>> 64).setWidth 64

/-- `m128i::from_u8` of sixteen bytes. -/
def fromU8 (bytes : List U8) : U128 :=
  bytes.foldr (fun byte w => (w <<< 8) ||| byte.setWidth 128) 0

/-! ## The generators of `hash.rs` -/

/-- Four parallel AES states. -/
abbrev State := Vector U128 4

def keys1rx4 : State := #v[
  fromI32 0xb4f44917 0xdbb5552b 0x62716609 0x6daca553,
  fromI32 0x0da1dc4e 0x1725d378 0x846a710d 0x6d7caf07,
  fromI32 0x3e20e345 0xf4c0794f 0x9f947ec6 0x3f1262f1,
  fromI32 0x49169154 0x16314c88 0xb1ba317c 0x6aef8135]

/-- One round on each state, decrypting the even ones and encrypting the odd ones. -/
def decEncRound (state keys : State) : State :=
  #v[aesdec state[0] keys[0], aesenc state[1] keys[1], aesdec state[2] keys[2],
    aesenc state[3] keys[3]]

/-- One round on each state, encrypting the even ones and decrypting the odd ones. -/
def encDecRound (state keys : State) : State :=
  #v[aesenc state[0] keys[0], aesdec state[1] keys[1], aesenc state[2] keys[2],
    aesdec state[3] keys[3]]

/-- The eight words written for a chunk. -/
def State.words (state : State) : List U64 := state.toList.flatMap fun s => [low s, high s]

/-- The words written to the given number of chunks, and the last state. -/
def fillChunks : ℕ → State → List U64 × State
  | 0, state => ([], state)
  | chunks + 1, state =>
    let state := decEncRound state keys1rx4
    let (rest, last) := fillChunks chunks state
    (state.words ++ rest, last)

/-- Fills a buffer of the length of `into`; the assertion refuses incomplete chunks. -/
def fillAes1rx4U64 (input : State) (into : Array U64) : Option (Array U64 × State) :=
  if into.size % 8 = 0 then
    let (words, last) := fillChunks (into.size / 8) input
    some (words.toArray, last)
  else none

/-- The loop of `hash_aes_1rx4` over `chunks_exact(8)`. -/
def hashChunks (state : State) : List U64 → State
  | w0 :: w1 :: w2 :: w3 :: w4 :: w5 :: w6 :: w7 :: rest =>
    hashChunks (encDecRound state
      #v[fromU64 w1 w0, fromU64 w3 w2, fromU64 w5 w4, fromU64 w7 w6]) rest
  | _ => state

def hashAes1rx4 (input : Array U64) : Option State :=
  if input.size % 8 = 0 then
    let state : State := #v[
      fromI32 0xd7983aad 0xcc82db47 0x9fa856de 0x92b52c0d,
      fromI32 0xace78057 0xf59e125a 0x15c7b798 0x338d996e,
      fromI32 0xe8a07ce4 0x5079506b 0xae62c7d0 0x6a770017,
      fromI32 0x7e994948 0x79a10005 0x07ad828d 0x630a240c]
    let state := hashChunks state input.toList
    let xKey0 := fromI32 0x06890201 0x90dc56bf 0x8b24949f 0xf6fa8389
    let xKey1 := fromI32 0xed18f99b 0xee1043c6 0x51f4e03c 0x61b263d1
    let state := encDecRound state (Vector.replicate 4 xKey0)
    some (encDecRound state (Vector.replicate 4 xKey1))
  else none

def keys4rx4 : Vector U128 8 := #v[
  fromI32 0x99e5d23f 0x2f546d2b 0xd1833ddb 0x6421aadd,
  fromI32 0xa5dfcde5 0x06f79d53 0xb6913f55 0xb20e3450,
  fromI32 0x171c02bf 0x0aa4679f 0x515e7baf 0x5c3ed904,
  fromI32 0xd8ded291 0xcd673785 0xe78f5d08 0x85623763,
  fromI32 0x229effb4 0x3d518b6d 0xe3d6a7a6 0xb5826f73,
  fromI32 0xb272b7d2 0xe9024d4e 0x9c10b3d9 0xc7566bf3,
  fromI32 0xf63befa7 0x2ba9660a 0xf765a38b 0xf273c9e7,
  fromI32 0xc0b0762d 0x0c06d1fd 0x915839de 0x7a7cd609]

/-- The four rounds of an iteration of `gen_program_aes_4rx4`. -/
def genRounds (state : State) : State :=
  let state := decEncRound state #v[keys4rx4[0], keys4rx4[0], keys4rx4[4], keys4rx4[4]]
  let state := decEncRound state #v[keys4rx4[1], keys4rx4[1], keys4rx4[5], keys4rx4[5]]
  let state := decEncRound state #v[keys4rx4[2], keys4rx4[2], keys4rx4[6], keys4rx4[6]]
  decEncRound state #v[keys4rx4[3], keys4rx4[3], keys4rx4[7], keys4rx4[7]]

/-- The loop from `out_ix`. -/
def genProgramLoop (outputSize outIx : ℕ) (state : State) : List U128 :=
  if outIx < outputSize then
    let state := genRounds state
    state.toList ++ genProgramLoop outputSize (outIx + 4) state
  else []
termination_by outputSize - outIx

def genProgramAes4rx4 (input : State) (outputSize : ℕ) : List U128 :=
  genProgramLoop outputSize 0 input

/-! ## Lengths -/

lemma length_words (state : State) : state.words.length = 8 := by
  unfold State.words
  simp [List.length_flatMap]

lemma length_fillChunks (chunks : ℕ) (state : State) :
    (fillChunks chunks state).1.length = 8 * chunks := by
  induction chunks generalizing state with
  | zero => rfl
  | succ chunks ih =>
    show ((decEncRound state keys1rx4).words ++ (fillChunks chunks _).1).length = _
    rw [List.length_append, length_words, ih]
    omega

/-- A buffer of whole chunks is filled. -/
lemma fillAes1rx4U64_eq {into : Array U64} {chunks : ℕ} (h : into.size = 8 * chunks)
    (input : State) :
    fillAes1rx4U64 input into
      = some ((fillChunks chunks input).1.toArray, (fillChunks chunks input).2) := by
  have hmod : into.size % 8 = 0 := by omega
  have hdiv : into.size / 8 = chunks := by omega
  unfold fillAes1rx4U64
  rw [if_pos hmod, hdiv]

lemma length_genProgramLoop {outputSize rounds outIx : ℕ} (h : outputSize = outIx + 4 * rounds)
    (state : State) : (genProgramLoop outputSize outIx state).length = 4 * rounds := by
  induction rounds generalizing outIx state with
  | zero =>
    unfold genProgramLoop
    rw [if_neg (by omega)]
    rfl
  | succ rounds ih =>
    unfold genProgramLoop
    rw [if_pos (by omega)]
    show (((genRounds state).toList ++ genProgramLoop outputSize (outIx + 4) _).length) = _
    rw [List.length_append, ih (by omega), Vector.length_toList]
    omega

end RandomXSp1.Aes
