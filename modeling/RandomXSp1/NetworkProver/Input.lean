import RandomXSp1.Audit.Fixtures
import RandomXSp1.Audit.HexTheorems

/-!
# The input of a proof request

`validate_input` of `network-prover/src/main.rs`, which a block has to pass before a proof of its
hash is paid for. What it prints is left out. `hex::decode` and Keccak are parameters.
-/

namespace RandomXSp1.NetworkProver

open Audit (Hash isHexDigit encodeHex appendVarint stripHexPrefix u64FromStrRadix16
  MoneroBlockFixture)

/-- A block to prove, with the limits of the request. -/
structure ProofInput where
  network : Str
  height : U64
  blockId : Str
  prevHash : Str
  timestamp : U64
  wideDifficulty : Str
  seedHeight : U64
  seedHash : Str
  hashingBlob : Str
  powHash : Str
  cycleLimit : U64
  gasLimit : U64
  requestTimeoutSeconds : U64

/-- `hex::decode`: pairs of digits of either case, and nothing else. -/
structure HexDecode where
  decode : Str → Option (List U8)
  decode_eq_some : ∀ value bytes, decode value = some bytes ↔
    (∀ c ∈ value, isHexDigit c = true) ∧ value.map Char.toLower = encodeHex bytes

def minRequestTimeoutSecs : U64 := 600

section
variable (hex : HexDecode)

def decode32 (value : Str) (name : String) : Outcome Hash := do
  let bytes ← Outcome.context (hex.decode (stripHexPrefix value)) s!"decoding {name}"
  if h : bytes.length = 32 then return ⟨bytes.toArray, h⟩
  else throw s!"{name} must be 32 bytes, got {bytes.length}"

def parseDifficulty (value : Str) : Outcome U64 :=
  Outcome.context (u64FromStrRadix16 (stripHexPrefix value))
    s!"parsing difficulty: {String.ofList value}"

def validateInput (keccak256 : List U8 → Hash) (input : ProofInput) : Outcome Unit := do
  Outcome.bailIf (input.network ≠ "monero-mainnet".toList)
    s!"unsupported network: {String.ofList input.network}"
  let blockId ← decode32 hex input.blockId "block ID"
  let _ ← decode32 hex input.prevHash "previous block hash"
  let _ ← decode32 hex input.seedHash "RandomX seed hash"
  let powHash ← decode32 hex input.powHash "PoW hash"
  let blob ← Outcome.context (hex.decode input.hashingBlob) "decoding hashing blob"
  Outcome.bailIf (blob.length ≠ 77)
    s!"selected Monero hashing blob must be 77 bytes, got {blob.length}"
  let serializedBlob := appendVarint (BitVec.ofNat 64 blob.length) [] ++ blob
  Outcome.bailIf (keccak256 serializedBlob ≠ blockId)
    "hashing blob does not produce the declared Monero block ID"
  let expectedSeedHeight := randomxSeedHeight input.height
  Outcome.bailIf (input.seedHeight ≠ expectedSeedHeight)
    (s!"wrong RandomX seed height: expected {expectedSeedHeight.toNat}, " ++
      s!"got {input.seedHeight.toNat}")
  let difficulty ← parseDifficulty input.wideDifficulty
  let meets ← Outcome.expect (meetsDifficulty powHash difficulty)
  Outcome.bailIf (meets = false) "PoW hash does not meet the declared Monero difficulty"
  Outcome.bailIf (input.requestTimeoutSeconds < minRequestTimeoutSecs)
    s!"request timeout must be at least {minRequestTimeoutSecs.toNat} seconds"

end

/-- The input for a fixture, with the seed it was made for and the limits. -/
def ProofInput.ofFixture (block : MoneroBlockFixture) (seedHeight : U64) (seedHash : Str)
    (cycleLimit gasLimit requestTimeoutSeconds : U64) : ProofInput where
  network := "monero-mainnet".toList
  height := block.height
  blockId := block.blockId
  prevHash := block.prevHash
  timestamp := block.timestamp
  wideDifficulty := block.wideDifficulty
  seedHeight := seedHeight
  seedHash := seedHash
  hashingBlob := block.hashingBlob
  powHash := block.powHash
  cycleLimit := cycleLimit
  gasLimit := gasLimit
  requestTimeoutSeconds := requestTimeoutSeconds

end RandomXSp1.NetworkProver
