import RandomXSp1.Checked
import RandomXSp1.Strings
import RandomXSp1.Loops

/-!
# Monero records in the audit crate

`monero.rs` of the audit crate, and the seed height of its `network_fixtures.rs`, with the copies of
the consensus rules in `network-prover/src/main.rs`. Keccak is a parameter.
-/

namespace RandomXSp1.Audit

def hashBytes : ℕ := 32

abbrev Hash := Vector U8 hashBytes

/-! ## Hexadecimal -/

/-- `char::to_digit(16)` of a byte. -/
def toDigit (b : U8) : Option ℕ :=
  if 0x30 ≤ b ∧ b ≤ 0x39 then some (b.toNat - 0x30)
  else if 0x61 ≤ b ∧ b ≤ 0x66 then some (b.toNat - 0x61 + 10)
  else if 0x41 ≤ b ∧ b ≤ 0x46 then some (b.toNat - 0x41 + 10)
  else none

/-- The digits of `from_str_radix`: each multiplies what was read so far, within a `u8`. -/
def parseDigits : ℕ → List U8 → Option ℕ
  | result, [] => some result
  | result, b :: rest => do
    let result ← checkedMul 8 result 16
    let result ← checkedAdd 8 result (← toDigit b)
    parseDigits result rest

/-- `u8::from_str_radix(src, 16)`: a plus sign may come first, an unsigned type has no minus. -/
def u8FromStrRadix16 (src : Str) : Option U8 :=
  match utf8 src with
  | [] => none
  | first :: rest =>
    if rest = [] ∧ (first = 0x2b ∨ first = 0x2d) then none
    else (parseDigits 0 (if first = 0x2b then rest else first :: rest)).map (BitVec.ofNat 8)

def invalidHex (index : ℕ) (value : Str) : String :=
  s!"invalid hex at byte {index}: {String.ofList value}"

/-- What is parsed, or the error that names the byte. -/
def parseByte (value : Str) (index : ℕ) (pair : Str) : Outcome U8 :=
  match u8FromStrRadix16 pair with
  | some byte => pure byte
  | none => throw (invalidHex index value)

/-- An iteration of the loop of `decode_hex`. -/
def decodeHexStep {N : ℕ} (value : Str) (bytes : Vector U8 N) (index : ℕ) :
    Outcome (Vector U8 N) := do
  let offset := index * 2
  let pair ← Outcome.expect (slice value offset 2)
  let byte ← parseByte value index pair
  return bytes.setIfInBounds index byte

def decodeHex (N : ℕ) (value : Str) : Outcome (Vector U8 N) :=
  if byteLen value ≠ N * 2 then
    throw s!"expected {N * 2} hex characters, got {byteLen value}"
  else (List.range N).foldlM (decodeHexStep value) (Vector.replicate N 0)

/-- The pairs of bytes from the given index on; a pair that is not UTF-8 panics. -/
def decodePairs (value : Str) : ℕ → List U8 → Outcome (List U8)
  | index, first :: second :: rest => do
    let pair ← Outcome.expect (fromUtf8 [first, second])
    let byte ← parseByte value index pair
    return byte :: (← decodePairs value (index + 1) rest)
  | _, _ => return []

def decodeHexVec (value : Str) : Outcome (List U8) :=
  if byteLen value % 2 ≠ 0 then throw s!"hex string has odd length: {byteLen value}"
  else decodePairs value 0 (utf8 value)

/-- A lower-case digit. -/
def hexDigit (n : ℕ) : Char := Char.ofNat (if n < 10 then 0x30 + n else 0x61 + (n - 10))

/-- Two digits for each byte. -/
def encodeHex (bytes : List U8) : Str :=
  bytes.flatMap fun byte => [hexDigit (byte.toNat / 16), hexDigit (byte.toNat % 16)]

/-! ## Numbers -/

/-- `chunks_exact`. -/
def chunksExact (length : ℕ) (bytes : List U8) : List (List U8) :=
  (List.range (bytes.length / length)).map fun i => (bytes.drop (length * i)).take length

/-- An iteration of `meets_difficulty`, on the carry. -/
def difficultyStep (difficulty : U64) (carry : ℕ) (chunk : List U8) : Option ℕ := do
  -- `u64::from_le_bytes`
  let limb := leBytesToNat chunk
  let product ← checkedAdd 128 (← checkedMul 128 limb difficulty.toNat) carry
  return product >>> 64

/-- The loop over the eight-byte chunks of the hash, the same in both crates. -/
def carryChain (hash : List U8) (difficulty : U64) : Option Bool := do
  let carry ← (chunksExact 8 hash).foldlM (difficultyStep difficulty) 0
  return carry == 0

def meetsDifficulty (hash : Hash) (difficulty : U64) : Option Bool :=
  carryChain hash.toList difficulty

def appendVarint (value : U64) (output : List U8) : List U8 :=
  if 0x80 ≤ value then
    appendVarint (value >>> 7) (output ++ [value.setWidth 8 ||| 0x80])
  else output ++ [value.setWidth 8]
termination_by value.toNat
decreasing_by
  rename_i h
  have hvalue : 0x80 ≤ value.toNat := h
  rw [BitVec.toNat_ushiftRight, Nat.shiftRight_eq_div_pow]
  omega

def randomxSeedHeight (height : U64) : U64 :=
  if height ≤ 2048 + 64 then 0 else (height - 64 - 1) &&& ~~~(2048 - 1)

/-! ## The tree hash -/

section
variable (cnFastHash : List U8 → Hash)

/-- Both halves of the pair are written. -/
def hashPair (left right : Hash) : Hash := cnFastHash (left.toList ++ right.toList)

/-- An iteration of the loop that hashes the last leaves in pairs, on the level and `source`. -/
def pairStep (hashes : List Hash) (state : List Hash × ℕ) (destination : ℕ) :
    Option (List Hash × ℕ) := do
  let (level, source) := state
  let left ← hashes[source]?
  let right ← hashes[source + 1]?
  return (level.set destination (hashPair cnFastHash left right), source + 2)

/-- An iteration of the loop that folds a level over itself. -/
def foldStep (level : List Hash) (destination : ℕ) : Option (List Hash) := do
  let left ← level[2 * destination]?
  let right ← level[2 * destination + 1]?
  return level.set destination (hashPair cnFastHash left right)

/-- The folds of the levels, on the level and its length. -/
def foldLevel (state : List Hash × ℕ) : Option (List Hash × ℕ) := do
  let levelLen := state.2 / 2
  let level ← (List.range levelLen).foldlM (foldStep cnFastHash) state.1
  return (level, levelLen)

/-- The part of `tree_hash` for more than two hashes. The `while` loops are granted as many
rounds as there are hashes. -/
def treeHashMany (hashes : List Hash) : Option Hash := do
  let count := hashes.length
  let levelLen ← whileLoop (fun levelLen => levelLen * 2 < count) (fun levelLen => some (levelLen * 2))
    count 1
  let direct ← checkedSub (2 * levelLen) count
  if direct ≤ levelLen ∧ direct ≤ count then
    let level := hashes.take direct ++ List.replicate (levelLen - direct) (Vector.replicate _ 0)
    let (level, source) ← (List.range' direct (levelLen - direct)).foldlM
      (pairStep cnFastHash hashes) (level, direct)
    if source = count then
      let (level, _) ← whileLoop (fun state => 2 < state.2) (foldLevel cnFastHash) count
        (level, levelLen)
      return hashPair cnFastHash (← level[0]?) (← level[1]?)
    else none
  else none

def treeHash (hashes : List Hash) : Option Hash :=
  match hashes with
  | [] => none
  | [hash] => some hash
  | [left, right] => some (hashPair cnFastHash left right)
  | hashes => treeHashMany cnFastHash hashes

end

/-! ## The hashing blob -/

/-- The fields of the record that the blob depends on. A `Vec` has fewer than `2 ^ 63` entries. -/
structure RpcBlockRecord where
  majorVersion : U64
  minorVersion : U64
  timestamp : U64
  prevHash : Str
  nonce : U32
  minerTxHash : Str
  txHashes : List Str
  txHashes_lt : txHashes.length < 2 ^ 63

/-- The hashes of the miner transaction and of the others. -/
def decodeTxHashes (block : RpcBlockRecord) : Outcome (List Hash) := do
  let first ← decodeHex hashBytes block.minerTxHash
  let rest ← block.txHashes.mapM (decodeHex hashBytes)
  return first :: rest

def hashingBlob (cnFastHash : List U8 → Hash) (block : RpcBlockRecord) :
    Outcome (List U8) := do
  let txHashes ← decodeTxHashes block
  let blob := appendVarint block.majorVersion []
  let blob := appendVarint block.minorVersion blob
  let blob := appendVarint block.timestamp blob
  let prevHash ← decodeHex hashBytes block.prevHash
  let blob := blob ++ prevHash.toList ++ toLeBytes block.nonce
  let root ← Outcome.expect (treeHash cnFastHash txHashes)
  return appendVarint (BitVec.ofNat 64 txHashes.length) (blob ++ root.toList)

end RandomXSp1.Audit

namespace RandomXSp1.NetworkProver

/-! ## The copies of the prover client -/

def epochBlocks : U64 := 2048
def seedLag : U64 := 64

/-- `saturating_sub`. -/
def saturatingSub (a b : U64) : U64 := if b ≤ a then a - b else 0

def randomxSeedHeight (height : U64) : U64 :=
  saturatingSub height seedLag / epochBlocks * epochBlocks

def meetsDifficulty (hash : Audit.Hash) (difficulty : U64) : Option Bool :=
  Audit.carryChain hash.toList difficulty

end RandomXSp1.NetworkProver
