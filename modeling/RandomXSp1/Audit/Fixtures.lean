import RandomXSp1.Audit.Monero
import RandomXSp1.Vm.KeyedHash

/-!
# Block fixtures

`network_fixture_builder` and `monero_block_input`, which write fixtures of Monero blocks, and
`validate_recent_mainnet_blocks`, which reads them back. Arguments, records and fixtures are taken
as parsed. The official RandomX library is a parameter, as Keccak is. A panic is `none`.
-/

namespace RandomXSp1.Audit

/-! ## Records and fixtures -/

/-- A whole record. -/
structure RpcBlock extends RpcBlockRecord where
  height : U64
  blockId : Str
  wideDifficulty : Str

structure MoneroBlockFixture where
  height : U64
  blockId : Str
  prevHash : Str
  timestamp : U64
  wideDifficulty : Str
  hashingBlob : Str
  powHash : Str

structure MoneroBlockFixtures where
  network : Str
  rpcEndpoint : Str
  seedHeight : U64
  seedHash : Str
  blocks : List MoneroBlockFixture

/-- The fixture of a record, with its hashing blob and its hash. -/
def MoneroBlockFixture.new (record : RpcBlock) (blob : List U8) (powHash : Hash) :
    MoneroBlockFixture where
  height := record.height
  blockId := record.blockId
  prevHash := record.prevHash
  timestamp := record.timestamp
  wideDifficulty := record.wideDifficulty
  hashingBlob := encodeHex blob
  powHash := encodeHex powHash.toList

/-- The fields that link a block to the one before it. -/
structure Header where
  height : U64
  blockId : Str
  prevHash : Str

def RpcBlock.header (record : RpcBlock) : Header :=
  { height := record.height, blockId := record.blockId, prevHash := record.prevHash }

def MoneroBlockFixture.header (block : MoneroBlockFixture) : Header :=
  { height := block.height, blockId := block.blockId, prevHash := block.prevHash }

/-- What the validator returns, less the time it took. -/
@[ext]
structure ValidationSummary where
  blocks : ℕ
  firstHeight : U64
  lastHeight : U64

/-! ## Difficulties -/

/-- A digit of `u64::from_str_radix`. -/
def pushHexDigit (result : ℕ) (b : U8) : Option ℕ := do
  let result ← checkedMul 64 result 16
  checkedAdd 64 result (← toDigit b)

/-- `u64::from_str_radix(src, 16)`. -/
def u64FromStrRadix16 (src : Str) : Option U64 :=
  match utf8 src with
  | [] => none
  | first :: rest =>
    if rest = [] ∧ (first = 0x2b ∨ first = 0x2d) then none
    else ((if first = 0x2b then rest else first :: rest).foldlM pushHexDigit 0).map
      (BitVec.ofNat 64)

/-- The string without a prefix `0x` or `0X`. -/
def stripHexPrefix : Str → Str
  | '0' :: 'x' :: digits => digits
  | '0' :: 'X' :: digits => digits
  | value => value

def parseWideDifficulty (value : Str) : Outcome U64 :=
  match u64FromStrRadix16 (stripHexPrefix value) with
  | some difficulty => pure difficulty
  | none => throw s!"invalid 64-bit difficulty: {String.ofList value}"

/-! ## Places -/

/-- The assertions of the builder and of the validator on the place of a block in the list. -/
def assertPlaced (headers : List Header) (seedHeight : U64) (index : ℕ) : Option Unit := do
  let header ← headers[index]?
  let first ← headers[0]?
  guard (header.height = first.height + BitVec.ofNat 64 index)
  guard (randomxSeedHeight header.height = seedHeight)
  match index with
  | 0 => return ()
  | k + 1 => do
    let previous ← headers[k]?
    guard (header.prevHash = previous.blockId)

/-! ## Processes -/

/-- What a process of the audit crate runs on: the contents of uninitialised memory, the native
operations of its host, and those of the software helpers. -/
structure Process where
  scratch : Argon2.Block
  uninit : Argon2.Memory
  host : LaneCall → U64
  native : SoftFp.Nearest
  nearest : SoftFp.Nearest

/-- All operations are binary64. -/
structure Process.IsBinary64 (p : Process) : Prop where
  host : CorrectlyRounded p.host
  native : p.native.IsBinary64
  nearest : p.nearest.IsBinary64

section
variable (cnFastHash : List U8 → Hash) (blake2b : Blake2b) (grant rounds : ℕ) (p : Process)

def blobObjectHash (blob : List U8) : Hash :=
  cnFastHash (appendVarint (BitVec.ofNat 64 blob.length) [] ++ blob)

/-- `VmMemory::light`, with the grant of the rejection loops. -/
def Process.light (seed : Hash) : Option SeedMemory :=
  (SeedMemory.newInitialised blake2b grant .unchecked p.scratch p.uninit seed.toList).toOption

/-- `Vm::calculate_hash`. -/
def Process.calculateHash (vm : Vm) (input : List U8) : Option (Hash × Vm) :=
  Reference.calculateHash p.host rounds blake2b vm input

/-- `hash_with_vm_for_audit`. -/
def Process.hashWithVmForAudit (vm : Vm) (input : List U8) : Option (Hash × Vm) :=
  Optimized.calculateHashImpl (fun call => some (Optimized.laneOp p.native p.nearest call))
    rounds blake2b vm input

/-! ## The builder -/

section
variable (official : Hash → List U8 → Hash) (seedHeight : U64)

/-- The body of the loop over the records, on the reference machine and the blocks so far. -/
def buildBlock (seed : Hash) (records : List RpcBlock) (state : Vm × List MoneroBlockFixture)
    (index : ℕ) : Option (Vm × List MoneroBlockFixture) := do
  let (reference, blocks) := state
  assertPlaced (records.map RpcBlock.header) seedHeight index
  let record ← records[index]?
  let blob ← (hashingBlob cnFastHash record.toRpcBlockRecord).unwrap
  guard (encodeHex (blobObjectHash cnFastHash blob).toList = record.blockId)
  let expected := official seed blob
  let difficulty ← (parseWideDifficulty record.wideDifficulty).unwrap
  guard ((← meetsDifficulty expected difficulty) = true)
  let (actual, reference) ← p.calculateHash blake2b rounds reference blob
  guard (actual = expected)
  return (reference, blocks ++ [.new record blob expected])

/-- `network_fixture_builder`. -/
def networkFixtureBuilder (seedHash rpcEndpoint : Str) (records : List RpcBlock) :
    Option MoneroBlockFixtures := do
  let seed ← (decodeHex hashBytes seedHash).unwrap
  guard (records.length = 20)
  let memory ← p.light blake2b grant seed
  let (_, blocks) ← (List.range records.length).foldlM
    (buildBlock cnFastHash blake2b rounds p official seedHeight seed records) (Vm.newVm memory, [])
  return { network := "mainnet".toList, rpcEndpoint, seedHeight, seedHash, blocks }

end

/-- `monero_block_input`. -/
def moneroBlockInput (seedHeight : U64) (seedHash : Str) (record : RpcBlock) :
    Option MoneroBlockFixture := do
  let seed ← (decodeHex hashBytes seedHash).unwrap
  guard (randomxSeedHeight record.height = seedHeight)
  let blob ← (hashingBlob cnFastHash record.toRpcBlockRecord).unwrap
  guard (encodeHex (blobObjectHash cnFastHash blob).toList = record.blockId)
  let memory ← p.light blake2b grant seed
  let (powHash, _) ← p.hashWithVmForAudit blake2b rounds (Vm.newVm memory) blob
  let difficulty ← (parseWideDifficulty record.wideDifficulty).unwrap
  guard ((← meetsDifficulty powHash difficulty) = true)
  return .new record blob powHash

/-! ## The validator -/

/-- The assertions on the two machines after a block. -/
def assertSameFinal (reference compact : Vm) : Option Unit := do
  guard (reference.registerBytes = compact.registerBytes)
  guard (reference.scratchpad = compact.scratchpad)
  guard (reference.mx = compact.mx)
  guard (reference.ma = compact.ma)
  guard (reference.pc = compact.pc)
  guard (reference.readReg = compact.readReg)
  guard (reference.eMask = compact.eMask)
  guard (reference.datasetOffset = compact.datasetOffset)
  guard (reference.getRoundingMode = compact.getRoundingMode)

/-- The body of the loop over the blocks, on the two machines. -/
def validateBlock (fixtures : MoneroBlockFixtures) (vms : Vm × Vm) (index : ℕ) :
    Option (Vm × Vm) := do
  let (reference, compact) := vms
  assertPlaced (fixtures.blocks.map MoneroBlockFixture.header) fixtures.seedHeight index
  let block ← fixtures.blocks[index]?
  let blob ← (decodeHexVec block.hashingBlob).unwrap
  guard (encodeHex (blobObjectHash cnFastHash blob).toList = block.blockId)
  let expected ← (decodeHex hashBytes block.powHash).unwrap
  let difficulty ← (parseWideDifficulty block.wideDifficulty).unwrap
  guard ((← meetsDifficulty expected difficulty) = true)
  let (referenceHash, reference) ← p.calculateHash blake2b rounds reference blob
  let (compactHash, compact) ← p.hashWithVmForAudit blake2b rounds compact blob
  guard (referenceHash = expected)
  guard (compactHash = expected)
  assertSameFinal reference compact
  -- the reference machine keeps the mode that the last program left
  return (reference, compact.resetRoundingMode)

/-- `validate_recent_mainnet_blocks`. -/
def validateRecentMainnetBlocks (fixtures : MoneroBlockFixtures) : Option ValidationSummary := do
  guard (fixtures.network = "mainnet".toList)
  guard (fixtures.blocks.length = 20)
  let seed ← (decodeHex hashBytes fixtures.seedHash).unwrap
  let memory ← p.light blake2b grant seed
  let _ ← (List.range fixtures.blocks.length).foldlM
    (validateBlock cnFastHash blake2b rounds p fixtures) (Vm.newVm memory, Vm.newVm memory)
  let first ← fixtures.blocks.head?
  let last ← fixtures.blocks.getLast?
  return {
    blocks := fixtures.blocks.length
    firstHeight := first.height
    lastHeight := last.height }

end

end RandomXSp1.Audit
