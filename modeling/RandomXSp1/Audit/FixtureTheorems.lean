import RandomXSp1.Audit.BlobTheorems
import RandomXSp1.Audit.DifficultyTheorems
import RandomXSp1.Audit.Fixtures
import RandomXSp1.Audit.HexTheorems

/-!
# Builder and validator

The validator accepts a fixture file exactly when its blocks are a chain within one seed epoch and
the public hash attests every block on its own; and the builder writes exactly the files that the
validator accepts, on whatever host and with whatever uninitialised memory either of them runs.
-/

namespace RandomXSp1.Audit

/-! ## Chains -/

def Follows (previous next : Header) : Prop :=
  next.height.toNat = previous.height.toNat + 1 ∧ next.prevHash = previous.blockId

/-- Each block follows the one before it, and all have the seed height given. -/
structure Chained (headers : List Header) (seedHeight : U64) : Prop where
  follows : headers.IsChain Follows
  seedHeight : ∀ header ∈ headers, IsSeedHeight header.height.toNat seedHeight.toNat

lemma isSeedHeight_randomxSeedHeight {height seedHeight : U64} :
    IsSeedHeight height.toNat seedHeight.toNat ↔ randomxSeedHeight height = seedHeight := by
  rw [isSeedHeight_iff, ← toNat_randomxSeedHeight, BitVec.toNat_inj]
  exact eq_comm

/-- Heights do not wrap around within an epoch. -/
lemma toNat_add_one_of_seedHeight {height : U64}
    (h : randomxSeedHeight (height + 1) = randomxSeedHeight height) :
    (height + 1).toNat = height.toNat + 1 := by
  have hseed := congrArg BitVec.toNat h
  rw [toNat_randomxSeedHeight, toNat_randomxSeedHeight] at hseed
  have hadd : (height + 1).toNat = (height.toNat + 1) % 2 ^ 64 := BitVec.toNat_add _ _
  have hlt := height.isLt
  omega

section
variable {headers : List Header} {seedHeight : U64}

lemma toNat_height_of_isChain (h : headers.IsChain Follows) {k : ℕ} (hk : k < headers.length) :
    headers[k].height.toNat = headers[0].height.toNat + k := by
  induction k with
  | zero => rfl
  | succ k ih =>
    rw [(List.isChain_iff_getElem.mp h k hk).1, ih (by omega)]
    rfl

lemma assertPlaced_eq_some {index : ℕ} {u : Unit} :
    assertPlaced headers seedHeight index = some u ↔
      ∃ header first, headers[index]? = some header ∧ headers[0]? = some first ∧
        header.height = first.height + BitVec.ofNat 64 index ∧
        randomxSeedHeight header.height = seedHeight ∧
        ∀ k previous, index = k + 1 → headers[k]? = some previous →
          header.prevHash = previous.blockId := by
  unfold assertPlaced
  simp only [Option.bind_eq_bind, Option.bind_eq_some_iff, guard_eq_some]
  constructor
  · rintro ⟨header, hheader, first, hfirst, _, hheight, _, hseed, hlink⟩
    refine ⟨header, first, hheader, hfirst, hheight, hseed, ?_⟩
    rintro k previous rfl hprevious
    simp only [Option.bind_eq_some_iff, guard_eq_some] at hlink
    obtain ⟨_, hprevious', hlink⟩ := hlink
    obtain rfl := Option.some.inj (hprevious'.symm.trans hprevious)
    exact hlink
  · rintro ⟨header, first, hheader, hfirst, hheight, hseed, hlink⟩
    refine ⟨header, hheader, first, hfirst, (), hheight, (), hseed, ?_⟩
    cases index with
    | zero => rfl
    | succ k =>
      have hk : k < headers.length := by
        have hlt := (List.getElem?_eq_some_iff.mp hheader).1
        omega
      have hprevious := List.getElem?_eq_getElem hk
      simp only [Option.bind_eq_some_iff, guard_eq_some]
      exact ⟨_, hprevious, hlink k _ rfl hprevious⟩

/-- The blocks are all in place if and only if they are a chain. -/
lemma forall_assertPlaced_iff :
    (∀ index ∈ List.range headers.length, assertPlaced headers seedHeight index = some ()) ↔
      Chained headers seedHeight := by
  constructor
  · intro h
    have hplaced (k : ℕ) (hk : k < headers.length) :=
      assertPlaced_eq_some.mp (h k (List.mem_range.mpr hk))
    constructor
    · rw [List.isChain_iff_getElem]
      intro k hk
      obtain ⟨header, first, hheader, hfirst, hheight, hseed, -⟩ := hplaced k (by omega)
      obtain ⟨next, first', hnext, hfirst', hheight', hseed', hlink⟩ := hplaced (k + 1) hk
      obtain rfl := Option.some.inj (hfirst.symm.trans hfirst')
      obtain ⟨_, rfl⟩ := List.getElem?_eq_some_iff.mp hheader
      obtain ⟨_, rfl⟩ := List.getElem?_eq_some_iff.mp hnext
      have hsucc : headers[k + 1].height = headers[k].height + 1 := by
        rw [hheight, hheight', BitVec.ofNat_add, BitVec.add_assoc]
        rfl
      -- the code adds without a check; that both heights have one seed rules the overflow out
      refine ⟨?_, hlink k _ rfl hheader⟩
      rw [hsucc]
      apply toNat_add_one_of_seedHeight
      rw [← hsucc, hseed, hseed']
    · intro header hmem
      obtain ⟨k, hk, rfl⟩ := List.getElem_of_mem hmem
      obtain ⟨header, _, hheader, _, _, hseed, -⟩ := hplaced k hk
      obtain ⟨_, rfl⟩ := List.getElem?_eq_some_iff.mp hheader
      exact isSeedHeight_randomxSeedHeight.mpr hseed
  · intro h k hk
    have hk : k < headers.length := List.mem_range.mp hk
    refine assertPlaced_eq_some.mpr ⟨headers[k], headers[0], List.getElem?_eq_getElem hk,
      List.getElem?_eq_getElem (by omega), ?_, ?_, ?_⟩
    · apply BitVec.eq_of_toNat_eq
      have hlt := headers[k].height.isLt
      rw [BitVec.toNat_add, BitVec.toNat_ofNat]
      rw [toNat_height_of_isChain h.follows hk] at hlt ⊢
      omega
    · exact isSeedHeight_randomxSeedHeight.mp (h.seedHeight _ (List.getElem_mem hk))
    · rintro j previous rfl hprevious
      obtain ⟨_, rfl⟩ := List.getElem?_eq_some_iff.mp hprevious
      exact (List.isChain_iff_getElem.mp h.follows j hk).2

end

/-! ## Attested blocks -/

section
variable (cnFastHash : List U8 → Hash) (digest : List U8 → Except Fault Hash)

/-- The block has the ID of its blob, and a hash of the blob that meets the difficulty. -/
def MoneroBlockFixture.Attested (block : MoneroBlockFixture) : Prop :=
  ∃ blob powHash difficulty,
    (decodeHexVec block.hashingBlob).Returns blob ∧
    encodeHex (blobObjectHash cnFastHash blob).toList = block.blockId ∧
    (decodeHex hashBytes block.powHash).Returns powHash ∧
    digest blob = .ok powHash ∧
    (parseWideDifficulty block.wideDifficulty).Returns difficulty ∧
    leBytesToNat powHash.toList * difficulty.toNat < 2 ^ 256

end

/-- A fixture as it was written is read back. -/
lemma attested_new_iff {cnFastHash : List U8 → Hash} {digest : List U8 → Except Fault Hash}
    {record : RpcBlock} {blob : List U8} {powHash : Hash} :
    (MoneroBlockFixture.new record blob powHash).Attested cnFastHash digest ↔
      encodeHex (blobObjectHash cnFastHash blob).toList = record.blockId ∧
        digest blob = .ok powHash ∧
        ∃ difficulty, (parseWideDifficulty record.wideDifficulty).Returns difficulty ∧
          leBytesToNat powHash.toList * difficulty.toNat < 2 ^ 256 := by
  have hblob := decodeHexVec_encodeHex blob
  have hpow := decodeHex_encodeHex powHash
  constructor
  · rintro ⟨blob', powHash', difficulty, hblob', hid, hpow', hdigest, hdifficulty, hmeets⟩
    obtain rfl := hblob.eq hblob'
    obtain rfl := hpow.eq hpow'
    exact ⟨hid, hdigest, difficulty, hdifficulty, hmeets⟩
  · rintro ⟨hid, hdigest, difficulty, hdifficulty, hmeets⟩
    exact ⟨blob, powHash, difficulty, hblob, hid, hpow, hdigest, hdifficulty, hmeets⟩

lemma meetsDifficulty_eq_some {hash : Hash} {difficulty : U64} {meets : Bool} :
    meetsDifficulty hash difficulty = some meets ↔
      meets = decide (leBytesToNat hash.toList * difficulty.toNat < 2 ^ 256) := by
  unfold meetsDifficulty
  rw [carryChain_eq, Option.some_inj]
  exact eq_comm

/-! ## Hashes of a process -/

/-- The public hash, in a process. -/
def Process.hash (blake2b : Blake2b) (grant rounds : ℕ) (p : Process) (seed : Hash)
    (blob : List U8) : Except Fault Hash :=
  RandomXSp1.hash blake2b grant rounds p.scratch p.uninit p.native p.nearest seed.toList blob

section
variable {blake2b : Blake2b} {grant rounds : ℕ}

/-- The contents of uninitialised memory do not show. -/
lemma light_eq (p q : Process) (seed : Hash) :
    p.light blake2b grant seed = q.light blake2b grant seed := by
  unfold Process.light
  rcases SeedMemory.newInitialised_unique blake2b grant seed.toList with h | ⟨seedMem, h⟩
  · rw [h, h]
  · rw [h, h]

/-- On a key's memory all machines of all processes return what the public hash returns. -/
lemma exists_digest (hrounds : 768 ≤ rounds) {p : Process} {seed : Hash} {seedMem : SeedMemory}
    (hlight : p.light blake2b grant seed = some seedMem) (blob : List U8) :
    ∃ out : Hash × Vm, out.2.IsOn seedMem ∧ ∀ q : Process, q.IsBinary64 →
      q.hash blake2b grant rounds seed blob = .ok out.1 ∧
      ∀ vm : Vm, vm.IsOn seedMem → q.calculateHash blake2b rounds vm blob = some out ∧
        q.hashWithVmForAudit blake2b rounds vm blob = some out := by
  obtain ⟨out, hon, hout⟩ := exists_reusedHash blake2b seedMem blob hrounds
  refine ⟨out, hon, ?_⟩
  intro q hq
  have hcorrect := Optimized.correctlyRounded_laneOp hq.native hq.nearest
  have hmemory : SeedMemory.newInitialised blake2b grant .unchecked q.scratch q.uninit seed.toList
      = .ok seedMem := by
    rw [light_eq p q] at hlight
    unfold Process.light at hlight
    cases hnew : SeedMemory.newInitialised blake2b grant .unchecked q.scratch q.uninit seed.toList with
    | error fault =>
      rw [hnew] at hlight
      cases hlight
    | ok memory =>
      rw [hnew] at hlight
      rw [Option.some.inj hlight]
  constructor
  · unfold Process.hash RandomXSp1.hash
    rw [hmemory, ok_bind, (hout _ (Vm.isOn_newVm seedMem)).1 _ hcorrect]
    rfl
  · intro vm hvm
    exact ⟨(hout vm hvm).2 _ hq.host, (hout vm hvm).1 _ hcorrect⟩

/-- Neither do the implementations of binary64. -/
lemma hash_eq (hrounds : 768 ≤ rounds) {p q : Process} (hp : p.IsBinary64) (hq : q.IsBinary64) :
    p.hash blake2b grant rounds = q.hash blake2b grant rounds := by
  funext seed blob
  rcases SeedMemory.newInitialised_unique blake2b grant seed.toList with h | ⟨seedMem, h⟩
  · have hrejecting (r : Process) :
        r.hash blake2b grant rounds seed blob = .error .rejecting := by
      unfold Process.hash RandomXSp1.hash
      rw [h]
      rfl
    rw [hrejecting, hrejecting]
  · have hlight : p.light blake2b grant seed = some seedMem := by
      unfold Process.light
      rw [h]
      rfl
    obtain ⟨out, -, hout⟩ := exists_digest hrounds hlight blob
    exact (hout p hp).1.trans (hout q hq).1.symm

/-- Where the programs of the keys are accepted, the hash returns if the grant is large enough. -/
lemma exists_hash_of_accepting (haccepting : (cacheGenerator blake2b).Accepting)
    (hrounds : 768 ≤ rounds) {p : Process} (hp : p.IsBinary64) (seed : Hash) (blob : List U8) :
    ∃ grant digest, p.hash blake2b grant rounds seed blob = .ok digest := by
  obtain ⟨grant, hgrant⟩ := exists_newInitialised haccepting .unchecked seed.toList
  obtain ⟨seedMem, hseedMem⟩ := hgrant grant le_rfl p.scratch p.uninit
  have hlight : p.light blake2b grant seed = some seedMem := by
    unfold Process.light
    rw [hseedMem]
    rfl
  obtain ⟨out, -, hout⟩ := exists_digest hrounds hlight blob
  exact ⟨grant, out.1, (hout p hp).1⟩

lemma exists_light_of_hash {p : Process} {seed digest : Hash} {blob : List U8}
    (h : p.hash blake2b grant rounds seed blob = .ok digest) :
    ∃ seedMem, p.light blake2b grant seed = some seedMem := by
  unfold Process.hash RandomXSp1.hash at h
  unfold Process.light
  cases hnew : SeedMemory.newInitialised blake2b grant .unchecked p.scratch p.uninit
      seed.toList with
  | error fault =>
    rw [hnew] at h
    cases h
  | ok memory => exact ⟨memory, rfl⟩

end

/-! ## The validator -/

lemma assertSameFinal_self (vm : Vm) : assertSameFinal vm vm = some () := by
  simp [assertSameFinal, guard]

section
variable {cnFastHash : List U8 → Hash} {blake2b : Blake2b} {grant rounds : ℕ}
  (hrounds : 768 ≤ rounds) {p : Process} (hp : p.IsBinary64) {seed : Hash} {seedMem : SeedMemory}
  (hlight : p.light blake2b grant seed = some seedMem) {fixtures : MoneroBlockFixtures}
  {vms vms' : Vm × Vm} (hon : vms.1.IsOn seedMem ∧ vms.2.IsOn seedMem) {index : ℕ}
include hrounds hp hlight hon

/-- A block is validated on any two machines with the memory of the key. -/
lemma exists_validateBlock_iff :
    (∃ vms', validateBlock cnFastHash blake2b rounds p fixtures vms index = some vms') ↔
      assertPlaced (fixtures.blocks.map MoneroBlockFixture.header) fixtures.seedHeight index
        = some () ∧
      ∃ block, fixtures.blocks[index]? = some block ∧
        block.Attested cnFastHash (p.hash blake2b grant rounds seed) := by
  unfold validateBlock
  simp only [Option.bind_eq_bind, Option.bind_eq_some_iff, guard_eq_some,
    Outcome.unwrap_eq_some, meetsDifficulty_eq_some]
  constructor
  · rintro ⟨vms', _, hplaced, block, hblock, blob, hblob, _, hid, powHash, hpow, difficulty,
      hdifficulty, _, rfl, _, hmeets, result, hreference, -, -, -, heq, -⟩
    obtain ⟨out, -, hout⟩ := exists_digest hrounds hlight blob
    obtain ⟨hhash, hmachines⟩ := hout p hp
    rw [(hmachines _ hon.1).1] at hreference
    obtain rfl := Option.some.inj hreference
    refine ⟨hplaced, block, hblock, blob, powHash, difficulty, hblob, hid, hpow, ?_, hdifficulty,
      of_decide_eq_true hmeets⟩
    rw [hhash, heq]
  · rintro ⟨hplaced, block, hblock, blob, powHash, difficulty, hblob, hid, hpow, hdigest,
      hdifficulty, hmeets⟩
    obtain ⟨out, -, hout⟩ := exists_digest hrounds hlight blob
    obtain ⟨hhash, hmachines⟩ := hout p hp
    obtain rfl := Except.ok.inj (hhash.symm.trans hdigest)
    exact ⟨_, (), hplaced, block, hblock, blob, hblob, (), hid, _, hpow, difficulty, hdifficulty,
      _, rfl, (), decide_eq_true hmeets, out, (hmachines _ hon.1).1, out, (hmachines _ hon.2).2,
      (), rfl, (), rfl, (), assertSameFinal_self _, rfl⟩

lemma isOn_of_validateBlock
    (h : validateBlock cnFastHash blake2b rounds p fixtures vms index = some vms') :
    vms'.1.IsOn seedMem ∧ vms'.2.IsOn seedMem := by
  unfold validateBlock at h
  simp only [Option.bind_eq_bind, Option.bind_eq_some_iff] at h
  obtain ⟨_, -, block, -, blob, -, _, -, powHash, -, difficulty, -, _, -, _, -, result, hreference,
    result', hcompact, _, -, _, -, _, -, hreturns⟩ := h
  obtain ⟨out, hout, hall⟩ := exists_digest hrounds hlight blob
  obtain ⟨-, hmachines⟩ := hall p hp
  rw [(hmachines _ hon.1).1] at hreference
  rw [(hmachines _ hon.2).2] at hcompact
  obtain rfl := Option.some.inj hreference
  obtain rfl := Option.some.inj hcompact
  obtain rfl := Option.some.inj hreturns
  exact ⟨hout, hout.mem, hout.size⟩

end

/-- A process whose arithmetic rounds by definition. -/
noncomputable def roundingProcess : Process where
  scratch := Argon2.Block.zero
  uninit := Vector.replicate _ Argon2.Block.zero
  host := roundingArith
  native := .ofArith roundingArith
  nearest := .ofArith roundingArith

lemma isBinary64_roundingProcess : roundingProcess.IsBinary64 where
  host := correctlyRounded_roundingArith
  native := SoftFp.isBinary64_ofArith correctlyRounded_roundingArith
  nearest := SoftFp.isBinary64_ofArith correctlyRounded_roundingArith

/-- A chain of 20 blocks with one seed, each with its public hash. -/
structure MoneroBlockFixtures.Valid (cnFastHash : List U8 → Hash)
    (hash : Hash → List U8 → Except Fault Hash) (fixtures : MoneroBlockFixtures) : Prop where
  network : fixtures.network = "mainnet".toList
  length : fixtures.blocks.length = 20
  chained : Chained (fixtures.blocks.map MoneroBlockFixture.header) fixtures.seedHeight
  attested : ∃ seed, (decodeHex hashBytes fixtures.seedHash).Returns seed ∧
    ∀ block ∈ fixtures.blocks, block.Attested cnFastHash (hash seed)

/-- A chain of 20 blocks ends 19 blocks above its first. -/
lemma toNat_lastHeight {blocks : List MoneroBlockFixture} {seedHeight : U64}
    {first last : MoneroBlockFixture}
    (hchained : Chained (blocks.map MoneroBlockFixture.header) seedHeight)
    (hlength : blocks.length = 20) (hfirst : blocks.head? = some first)
    (hlast : blocks.getLast? = some last) : last.height.toNat = first.height.toNat + 19 := by
  have hlt : 19 < (blocks.map MoneroBlockFixture.header).length := by
    rw [List.length_map]
    omega
  have hheight := toNat_height_of_isChain hchained.follows hlt
  rw [List.head?_eq_getElem?] at hfirst
  rw [List.getLast?_eq_getElem?, hlength] at hlast
  obtain ⟨_, rfl⟩ := List.getElem?_eq_some_iff.mp hfirst
  obtain ⟨_, rfl⟩ := List.getElem?_eq_some_iff.mp hlast
  rw [List.getElem_map, List.getElem_map] at hheight
  exact hheight

/-! ## A repeated block -/

def zeroHash : Hash := Vector.replicate hashBytes 0

/-- A block whose ID is that of its parent. -/
def repeatedRecord (height : U64) : RpcBlock where
  toRpcBlockRecord := blockOf zeroHash
  height := height
  blockId := encodeHex zeroHash.toList
  wideDifficulty := ['1']

def repeatedBlob : List U8 := BlobFields.encode ⟨16, 16, 300, zeroHash, 7, zeroHash, 2⟩

def repeatedRecords (height : U64) : List RpcBlock :=
  (List.range 20).map fun k => repeatedRecord (height + BitVec.ofNat 64 k)

/-- The file that the builder writes for them when the hash of the blob is the one given. -/
def repeatedFile (height : U64) (powHash : Hash) : MoneroBlockFixtures where
  network := "mainnet".toList
  rpcEndpoint := []
  seedHeight := 0
  seedHash := encodeHex zeroHash.toList
  blocks := (repeatedRecords height).map fun record => .new record repeatedBlob powHash

/-- Below the second epoch the file is valid for every hash that returns its digest. -/
lemma valid_repeatedFile {height : U64} (h : height.toNat ≤ 2000) {powHash : Hash}
    {hash : Hash → List U8 → Except Fault Hash} (hhash : hash zeroHash repeatedBlob = .ok powHash) :
    (repeatedFile height powHash).Valid (fun _ => zeroHash) hash := by
  have hheight (k : ℕ) (hk : k < 20) :
      (height + BitVec.ofNat 64 k).toNat = height.toNat + k := by
    rw [BitVec.toNat_add, BitVec.toNat_ofNat]
    omega
  refine ⟨rfl, by simp [repeatedFile, repeatedRecords], ⟨?_, ?_⟩, zeroHash,
    decodeHex_encodeHex zeroHash, ?_⟩
  · rw [List.isChain_iff_getElem]
    intro k hk
    have hlt : k + 1 < 20 := by simpa [repeatedFile, repeatedRecords] using hk
    refine ⟨?_, ?_⟩
    · have hnext := hheight (k + 1) hlt
      have hprevious := hheight k (by omega)
      simp only [repeatedFile, repeatedRecords, List.getElem_map, List.getElem_range]
      show (height + BitVec.ofNat 64 (k + 1)).toNat = (height + BitVec.ofNat 64 k).toNat + 1
      omega
    · simp only [repeatedFile, repeatedRecords, List.getElem_map, List.getElem_range]
      rfl
  · intro header hheader
    simp only [repeatedFile, repeatedRecords, List.map_map, List.mem_map, List.mem_range] at hheader
    obtain ⟨k, hk, rfl⟩ := hheader
    have hlow : height + BitVec.ofNat 64 k ≤ 2048 + 64 := by
      rw [BitVec.le_def, hheight k hk]
      show _ ≤ 2112
      omega
    exact isSeedHeight_randomxSeedHeight.mpr (if_pos hlow)
  · intro block hblock
    simp only [repeatedFile, repeatedRecords, List.map_map, List.mem_map] at hblock
    obtain ⟨k, -, rfl⟩ := hblock
    refine attested_new_iff.mpr ⟨rfl, hhash, 1, rfl, ?_⟩
    have hlt := leBytesToNat_lt powHash.toList
    rw [Vector.length_toList] at hlt
    show leBytesToNat powHash.toList * 1 < 2 ^ 256
    rwa [Nat.mul_one]

/-! ## The validator -/

section
variable {cnFastHash : List U8 → Hash} {blake2b : Blake2b} {grant rounds : ℕ}
  (hrounds : 768 ≤ rounds) {p : Process} (hp : p.IsBinary64)
include hrounds hp

lemma exists_validateBlocks_iff {seed : Hash} {seedMem : SeedMemory}
    (hlight : p.light blake2b grant seed = some seedMem) (fixtures : MoneroBlockFixtures) :
    (∃ vms, (List.range fixtures.blocks.length).foldlM
        (validateBlock cnFastHash blake2b rounds p fixtures) (Vm.newVm seedMem, Vm.newVm seedMem)
          = some vms) ↔
      Chained (fixtures.blocks.map MoneroBlockFixture.header) fixtures.seedHeight ∧
        ∀ block ∈ fixtures.blocks,
          block.Attested cnFastHash (p.hash blake2b grant rounds seed) := by
  have hnew := Vm.isOn_newVm seedMem
  have hloop := exists_foldlM_iff (f := validateBlock cnFastHash blake2b rounds p fixtures)
    (P := fun vms => vms.1.IsOn seedMem ∧ vms.2.IsOn seedMem)
    (l := List.range fixtures.blocks.length) (s := (Vm.newVm seedMem, Vm.newVm seedMem))
    (fun vms index vms' hon h => isOn_of_validateBlock hrounds hp hlight hon h)
    (fun vms hon index _ => exists_validateBlock_iff hrounds hp hlight hon) ⟨hnew, hnew⟩
  have hplaced : _ ↔ Chained (fixtures.blocks.map MoneroBlockFixture.header) fixtures.seedHeight :=
    forall_assertPlaced_iff
  rw [List.length_map] at hplaced
  rw [hloop, ← hplaced, ← forall_range_getElem (l := fixtures.blocks)]
  exact forall₂_and

lemma exists_validateRecentMainnetBlocks_iff (fixtures : MoneroBlockFixtures) :
    (∃ summary, validateRecentMainnetBlocks cnFastHash blake2b grant rounds p fixtures
        = some summary) ↔
      fixtures.Valid cnFastHash (p.hash blake2b grant rounds) := by
  unfold validateRecentMainnetBlocks
  simp only [Option.bind_eq_bind, Option.bind_eq_some_iff, guard_eq_some,
    Outcome.unwrap_eq_some]
  constructor
  · rintro ⟨summary, _, hnetwork, _, hlength, seed, hseed, seedMem, hlight, vms, hloop, -⟩
    obtain ⟨hchained, hattested⟩ :=
      (exists_validateBlocks_iff hrounds hp hlight fixtures).mp ⟨vms, hloop⟩
    exact ⟨hnetwork, hlength, hchained, seed, hseed, hattested⟩
  · rintro ⟨hnetwork, hlength, hchained, seed, hseed, hattested⟩
    have hne : fixtures.blocks ≠ [] := List.ne_nil_of_length_pos (by omega)
    obtain ⟨_, _, _, _, _, _, hhash, _⟩ := hattested _ (List.head_mem hne)
    obtain ⟨seedMem, hlight⟩ := exists_light_of_hash hhash
    obtain ⟨vms, hloop⟩ :=
      (exists_validateBlocks_iff hrounds hp hlight fixtures).mpr ⟨hchained, hattested⟩
    exact ⟨_, (), hnetwork, (), hlength, seed, hseed, seedMem, hlight, vms, hloop, _,
      List.head?_eq_some_head hne, _, List.getLast?_eq_some_getLast hne, rfl⟩

omit hrounds hp in
/-- The summary of a chain. -/
lemma of_validateRecentMainnetBlocks {fixtures : MoneroBlockFixtures} {summary : ValidationSummary}
    (h : validateRecentMainnetBlocks cnFastHash blake2b grant rounds p fixtures = some summary)
    (hchained : Chained (fixtures.blocks.map MoneroBlockFixture.header) fixtures.seedHeight) :
    summary.blocks = 20 ∧
      fixtures.blocks.head?.map MoneroBlockFixture.height = some summary.firstHeight ∧
      summary.lastHeight.toNat = summary.firstHeight.toNat + 19 := by
  unfold validateRecentMainnetBlocks at h
  simp only [Option.bind_eq_bind, Option.bind_eq_some_iff, guard_eq_some] at h
  obtain ⟨_, -, _, hlength, _, -, _, -, _, -, first, hfirst, last, hlast, hsummary⟩ := h
  obtain rfl := Option.some.inj hsummary
  refine ⟨hlength, ?_, toNat_lastHeight hchained hlength hfirst hlast⟩
  rw [hfirst]
  rfl

/-- The validator accepts a file if and only if it is a chain whose hashes the public hash returns,
and what it returns says so. -/
theorem validateRecentMainnetBlocks_iff (fixtures : MoneroBlockFixtures)
    (summary : ValidationSummary) :
    validateRecentMainnetBlocks cnFastHash blake2b grant rounds p fixtures = some summary ↔
      fixtures.Valid cnFastHash (p.hash blake2b grant rounds) ∧
        summary.blocks = 20 ∧
        fixtures.blocks.head?.map MoneroBlockFixture.height = some summary.firstHeight ∧
        summary.lastHeight.toNat = summary.firstHeight.toNat + 19 := by
  have hvalid : (∃ summary, validateRecentMainnetBlocks cnFastHash blake2b grant rounds p fixtures
      = some summary) ↔ fixtures.Valid cnFastHash (p.hash blake2b grant rounds) :=
    exists_validateRecentMainnetBlocks_iff hrounds hp fixtures
  constructor
  · intro h
    have hv := hvalid.mp ⟨summary, h⟩
    exact ⟨hv, of_validateRecentMainnetBlocks h hv.chained⟩
  · rintro ⟨hv, hblocks, hfirst, hlast⟩
    obtain ⟨summary', h⟩ := hvalid.mpr hv
    obtain ⟨hblocks', hfirst', hlast'⟩ := of_validateRecentMainnetBlocks h hv.chained
    have hfirstEq := Option.some.inj (hfirst.symm.trans hfirst')
    have hlastEq : summary.lastHeight = summary'.lastHeight := by
      apply BitVec.eq_of_toNat_eq
      rw [hlast, hlast', hfirstEq]
    rwa [ValidationSummary.ext (hblocks.trans hblocks'.symm) hfirstEq hlastEq]

omit hrounds hp in
/-- The validator accepts the repeated block if the digest of the file is that of the hash. -/
lemma validateRecentMainnetBlocks_iff_repeated :
    ∃ grant digest, validateRecentMainnetBlocks (fun _ => zeroHash) acceptedBlake2b grant 768
      roundingProcess (repeatedFile 100 digest) = some ⟨20, 100, 119⟩ := by
  obtain ⟨grant, digest, hdigest⟩ := exists_hash_of_accepting accepting_acceptedBlake2b le_rfl
    isBinary64_roundingProcess zeroHash repeatedBlob
  exact ⟨grant, digest, (validateRecentMainnetBlocks_iff le_rfl isBinary64_roundingProcess
    (repeatedFile 100 digest) ⟨20, 100, 119⟩).mpr
      ⟨valid_repeatedFile (by decide) hdigest, rfl, rfl, rfl⟩⟩

end

/-! ## The builder -/

/-- The fixture of the record, with the hash that the official library returns. -/
def Describes (cnFastHash : List U8 → Hash) (official : List U8 → Hash) (record : RpcBlock)
    (block : MoneroBlockFixture) : Prop :=
  ∃ blob, (hashingBlob cnFastHash record.toRpcBlockRecord).Returns blob ∧
    block = .new record blob (official blob)

section
variable {cnFastHash : List U8 → Hash} {official : List U8 → Hash} {record : RpcBlock}
  {block : MoneroBlockFixture}

lemma Describes.unique {block' : MoneroBlockFixture}
    (h : Describes cnFastHash official record block)
    (h' : Describes cnFastHash official record block') : block = block' := by
  obtain ⟨blob, hblob, rfl⟩ := h
  obtain ⟨blob', hblob', rfl⟩ := h'
  rw [hblob.eq hblob']

lemma Describes.header (h : Describes cnFastHash official record block) :
    block.header = record.header := by
  obtain ⟨blob, -, rfl⟩ := h
  rfl

lemma map_header_of_describes {records : List RpcBlock} {blocks : List MoneroBlockFixture}
    (h : List.Forall₂ (Describes cnFastHash official) records blocks) :
    records.map RpcBlock.header = blocks.map MoneroBlockFixture.header := by
  induction h with
  | nil => rfl
  | cons hblock _ ih => rw [List.map_cons, List.map_cons, hblock.header, ih]

lemma forall_attested_of_describes {digest : List U8 → Except Fault Hash}
    {records : List RpcBlock} {blocks : List MoneroBlockFixture}
    (h : List.Forall₂ (Describes cnFastHash official) records blocks) :
    (∀ record ∈ records, ∃ block, Describes cnFastHash official record block ∧
        block.Attested cnFastHash digest) ↔
      ∀ block ∈ blocks, block.Attested cnFastHash digest := by
  induction h with
  | nil => exact ⟨fun _ _ h => absurd h List.not_mem_nil, fun _ _ h => absurd h List.not_mem_nil⟩
  | cons hblock _ ih =>
    rw [List.forall_mem_cons, List.forall_mem_cons, ih]
    refine and_congr_left fun _ => ⟨?_, fun hattested => ⟨_, hblock, hattested⟩⟩
    rintro ⟨block', hblock', hattested⟩
    rwa [hblock.unique hblock']

end

lemma describes_repeatedFile (height : U64) (powHash : Hash) :
    List.Forall₂ (Describes (fun _ => zeroHash) (fun _ => powHash)) (repeatedRecords height)
      (repeatedFile height powHash).blocks := by
  refine List.forall₂_map_right_iff.mpr (List.forall₂_same.mpr ?_)
  intro record hrecord
  obtain ⟨k, -, rfl⟩ := List.mem_map.mp hrecord
  exact ⟨repeatedBlob, hashingBlob_blockOf zeroHash zeroHash, rfl⟩

section
variable {cnFastHash : List U8 → Hash} {blake2b : Blake2b} {grant rounds : ℕ}
  (hrounds : 768 ≤ rounds) {p : Process} (hp : p.IsBinary64) {official : Hash → List U8 → Hash}
  {seedHeight : U64} {seed : Hash} {seedMem : SeedMemory}
  (hlight : p.light blake2b grant seed = some seedMem) {records : List RpcBlock}
  {state state' : Vm × List MoneroBlockFixture} {index : ℕ}

/-- What the builder adds is the fixture of the record. -/
lemma exists_describes_of_buildBlock
    (h : buildBlock cnFastHash blake2b rounds p official seedHeight seed records state index
      = some state') :
    ∃ block, (∃ record, records[index]? = some record ∧
      Describes cnFastHash (official seed) record block) ∧ state'.2 = state.2 ++ [block] := by
  unfold buildBlock at h
  simp only [Option.bind_eq_bind, Option.bind_eq_some_iff, Outcome.unwrap_eq_some] at h
  obtain ⟨_, -, record, hrecord, blob, hblob, _, -, _, -, _, -, _, -, _, -, _, -, hreturns⟩ := h
  obtain rfl := Option.some.inj hreturns
  exact ⟨_, ⟨record, hrecord, blob, hblob, rfl⟩, rfl⟩

variable (hon : state.1.IsOn seedMem)
include hrounds hp hlight hon

lemma exists_buildBlock_iff :
    (∃ state', buildBlock cnFastHash blake2b rounds p official seedHeight seed records state index
        = some state') ↔
      assertPlaced (records.map RpcBlock.header) seedHeight index = some () ∧
      ∃ record, records[index]? = some record ∧
        ∃ block, Describes cnFastHash (official seed) record block ∧
          block.Attested cnFastHash (p.hash blake2b grant rounds seed) := by
  unfold buildBlock
  simp only [Option.bind_eq_bind, Option.bind_eq_some_iff, guard_eq_some,
    Outcome.unwrap_eq_some, meetsDifficulty_eq_some]
  constructor
  · rintro ⟨state', _, hplaced, record, hrecord, blob, hblob, _, hid, difficulty, hdifficulty, _,
      rfl, _, hmeets, result, hreference, _, heq, -⟩
    obtain ⟨out, -, hout⟩ := exists_digest hrounds hlight blob
    obtain ⟨hhash, hmachines⟩ := hout p hp
    rw [(hmachines _ hon).1] at hreference
    obtain rfl := Option.some.inj hreference
    refine ⟨hplaced, record, hrecord, _, ⟨blob, hblob, rfl⟩, attested_new_iff.mpr
      ⟨hid, ?_, difficulty, hdifficulty, of_decide_eq_true hmeets⟩⟩
    rw [hhash, heq]
  · rintro ⟨hplaced, record, hrecord, _, ⟨blob, hblob, rfl⟩, hattested⟩
    obtain ⟨hid, hdigest, difficulty, hdifficulty, hmeets⟩ := attested_new_iff.mp hattested
    obtain ⟨out, -, hout⟩ := exists_digest hrounds hlight blob
    obtain ⟨hhash, hmachines⟩ := hout p hp
    have heq := Except.ok.inj (hhash.symm.trans hdigest)
    exact ⟨_, (), hplaced, record, hrecord, blob, hblob, (), hid, difficulty, hdifficulty, _, rfl,
      (), decide_eq_true hmeets, out, (hmachines _ hon).1, (), heq, rfl⟩

lemma isOn_of_buildBlock
    (h : buildBlock cnFastHash blake2b rounds p official seedHeight seed records state index
      = some state') : state'.1.IsOn seedMem := by
  unfold buildBlock at h
  simp only [Option.bind_eq_bind, Option.bind_eq_some_iff] at h
  obtain ⟨_, -, record, -, blob, -, _, -, _, -, _, -, _, -, result, hreference, _, -, hreturns⟩ := h
  obtain ⟨out, hout, hall⟩ := exists_digest hrounds hlight blob
  rw [((hall p hp).2 _ hon).1] at hreference
  obtain rfl := Option.some.inj hreference
  obtain rfl := Option.some.inj hreturns
  exact hout

end

section
variable {cnFastHash : List U8 → Hash} {blake2b : Blake2b} {grant rounds : ℕ}
  (hrounds : 768 ≤ rounds) {p : Process} (hp : p.IsBinary64) {official : Hash → List U8 → Hash}
  {seedHeight : U64} {seedHash rpcEndpoint : Str} {records : List RpcBlock}
include hrounds hp

lemma exists_buildBlocks_iff {seed : Hash} {seedMem : SeedMemory}
    (hlight : p.light blake2b grant seed = some seedMem) (blocks : List MoneroBlockFixture) :
    (∃ vm, (List.range records.length).foldlM
        (buildBlock cnFastHash blake2b rounds p official seedHeight seed records)
        (Vm.newVm seedMem, []) = some (vm, blocks)) ↔
      Chained (blocks.map MoneroBlockFixture.header) seedHeight ∧
        List.Forall₂ (Describes cnFastHash (official seed)) records blocks ∧
        ∀ block ∈ blocks, block.Attested cnFastHash (p.hash blake2b grant rounds seed) := by
  have hloop := exists_foldlM_iff
    (f := buildBlock cnFastHash blake2b rounds p official seedHeight seed records)
    (P := fun state => state.1.IsOn seedMem) (l := List.range records.length)
    (s := (Vm.newVm seedMem, []))
    (fun state index state' hon h => isOn_of_buildBlock hrounds hp hlight hon h)
    (fun state hon index _ => exists_buildBlock_iff hrounds hp hlight hon) (Vm.isOn_newVm seedMem)
  have hplaced : _ ↔ Chained (records.map RpcBlock.header) seedHeight := forall_assertPlaced_iff
  rw [List.length_map] at hplaced
  rw [forall₂_and, hplaced, forall_range_getElem] at hloop
  have hcollects {state : Vm × List MoneroBlockFixture}
      (h : (List.range records.length).foldlM
        (buildBlock cnFastHash blake2b rounds p official seedHeight seed records)
        (Vm.newVm seedMem, []) = some state) :
      List.Forall₂ (Describes cnFastHash (official seed)) records state.2 := by
    obtain ⟨blocks', hblocks, heq⟩ := forall₂_of_foldlM
      (R := fun index block => ∃ record, records[index]? = some record ∧
        Describes cnFastHash (official seed) record block)
      (fun state index state' hbuild => exists_describes_of_buildBlock hbuild) h
    obtain rfl : state.2 = blocks' := heq
    exact forall₂_of_range hblocks
  constructor
  · rintro ⟨vm, h⟩
    have hdescribes := hcollects h
    obtain ⟨hchained, hattested⟩ := hloop.mp ⟨_, h⟩
    rw [map_header_of_describes hdescribes] at hchained
    exact ⟨hchained, hdescribes, (forall_attested_of_describes hdescribes).mp hattested⟩
  · rintro ⟨hchained, hdescribes, hattested⟩
    rw [← map_header_of_describes hdescribes] at hchained
    obtain ⟨state, h⟩ :=
      hloop.mpr ⟨hchained, (forall_attested_of_describes hdescribes).mpr hattested⟩
    -- the loop returns some blocks that describe the records, and only one list does
    have hunique : Relator.RightUnique (Describes cnFastHash (official seed)) :=
      fun _ _ _ h h' => h.unique h'
    rw [List.right_unique_forall₂' hunique hdescribes (hcollects h)]
    exact ⟨state.1, h⟩

lemma networkFixtureBuilder_eq_some_iff (fixtures : MoneroBlockFixtures) :
    networkFixtureBuilder cnFastHash blake2b grant rounds p official seedHeight seedHash rpcEndpoint
        records = some fixtures ↔
      fixtures.rpcEndpoint = rpcEndpoint ∧ fixtures.seedHeight = seedHeight ∧
        fixtures.seedHash = seedHash ∧
        (∃ seed, (decodeHex hashBytes seedHash).Returns seed ∧
          List.Forall₂ (Describes cnFastHash (official seed)) records fixtures.blocks) ∧
        fixtures.Valid cnFastHash (p.hash blake2b grant rounds) := by
  unfold networkFixtureBuilder
  simp only [Option.bind_eq_bind, Option.bind_eq_some_iff, guard_eq_some,
    Outcome.unwrap_eq_some]
  constructor
  · rintro ⟨seed, hseed, _, hlength, seedMem, hlight, ⟨vm, blocks⟩, hloop, hreturns⟩
    obtain rfl := Option.some.inj hreturns
    obtain ⟨hchained, hdescribes, hattested⟩ :=
      (exists_buildBlocks_iff hrounds hp hlight blocks).mp ⟨vm, hloop⟩
    exact ⟨rfl, rfl, rfl, ⟨seed, hseed, hdescribes⟩, rfl, hdescribes.length_eq.symm.trans hlength,
      hchained, seed, hseed, hattested⟩
  · rintro ⟨rfl, rfl, rfl, ⟨seed, hseed, hdescribes⟩, hnetwork, hlength, hchained, seed', hseed',
      hattested⟩
    obtain rfl := hseed.eq hseed'
    -- the key has a memory, as its hash of the first block shows
    have hne : fixtures.blocks ≠ [] := List.ne_nil_of_length_pos (by omega)
    obtain ⟨_, _, _, _, _, _, hhash, _⟩ := hattested _ (List.head_mem hne)
    obtain ⟨seedMem, hlight⟩ := exists_light_of_hash hhash
    obtain ⟨vm, hloop⟩ := (exists_buildBlocks_iff hrounds hp hlight fixtures.blocks).mpr
      ⟨hchained, hdescribes, hattested⟩
    refine ⟨seed, hseed, (), hdescribes.length_eq.trans hlength, seedMem, hlight, _, hloop, ?_⟩
    rw [← hnetwork]
    rfl

/-- The builder writes a file if and only if it describes the records, with the hashes of the
official library, and the validator accepts it, on any host. -/
theorem networkFixtureBuilder_iff {q : Process} (hq : q.IsBinary64)
    (fixtures : MoneroBlockFixtures) :
    networkFixtureBuilder cnFastHash blake2b grant rounds p official seedHeight seedHash rpcEndpoint
        records = some fixtures ↔
      fixtures.rpcEndpoint = rpcEndpoint ∧ fixtures.seedHeight = seedHeight ∧
        fixtures.seedHash = seedHash ∧
        (∃ seed, (decodeHex hashBytes seedHash).Returns seed ∧
          List.Forall₂ (Describes cnFastHash (official seed)) records fixtures.blocks) ∧
        ∃ summary, validateRecentMainnetBlocks cnFastHash blake2b grant rounds q fixtures
          = some summary := by
  rw [exists_validateRecentMainnetBlocks_iff hrounds hq, ← hash_eq hrounds hp hq]
  exact networkFixtureBuilder_eq_some_iff hrounds hp fixtures

omit hrounds hp in
/-- The builder writes the file of the repeated block. -/
lemma networkFixtureBuilder_iff_repeated :
    ∃ grant digest, networkFixtureBuilder (fun _ => zeroHash) acceptedBlake2b grant 768
      roundingProcess (fun _ _ => digest) 0 (encodeHex zeroHash.toList) [] (repeatedRecords 100)
        = some (repeatedFile 100 digest) := by
  obtain ⟨grant, digest, hdigest⟩ := exists_hash_of_accepting accepting_acceptedBlake2b le_rfl
    isBinary64_roundingProcess zeroHash repeatedBlob
  have hvalid := (exists_validateRecentMainnetBlocks_iff le_rfl isBinary64_roundingProcess
    (repeatedFile 100 digest)).mpr (valid_repeatedFile (by decide) hdigest)
  exact ⟨grant, digest, (networkFixtureBuilder_iff le_rfl isBinary64_roundingProcess
    isBinary64_roundingProcess (repeatedFile 100 digest)).mpr ⟨rfl, rfl, rfl,
      ⟨zeroHash, decodeHex_encodeHex zeroHash, describes_repeatedFile 100 digest⟩, hvalid⟩⟩

lemma moneroBlockInput_eq_some_iff {seed : Hash} (hseed : (decodeHex hashBytes seedHash).Returns seed)
    {record : RpcBlock} {block : MoneroBlockFixture}
    (hdescribes : Describes cnFastHash (official seed) record block) :
    moneroBlockInput cnFastHash blake2b grant rounds p seedHeight seedHash record = some block ↔
      randomxSeedHeight block.height = seedHeight ∧
        block.Attested cnFastHash (p.hash blake2b grant rounds seed) := by
  obtain ⟨blob, hblob, rfl⟩ := hdescribes
  rw [attested_new_iff]
  unfold moneroBlockInput
  simp only [Option.bind_eq_bind, Option.bind_eq_some_iff, guard_eq_some,
    Outcome.unwrap_eq_some, meetsDifficulty_eq_some]
  constructor
  · rintro ⟨seed', hseed', _, hheight, blob', hblob', _, hid, seedMem, hlight, result, hresult,
      difficulty, hdifficulty, _, rfl, _, hmeets, hreturns⟩
    obtain rfl := hseed.eq hseed'
    obtain rfl := hblob.eq hblob'
    obtain ⟨out, -, hout⟩ := exists_digest hrounds hlight blob
    obtain ⟨hhash, hmachines⟩ := hout p hp
    rw [(hmachines _ (Vm.isOn_newVm seedMem)).2] at hresult
    obtain rfl := Option.some.inj hresult
    have hpow := congrArg MoneroBlockFixture.powHash (Option.some.inj hreturns)
    -- the fixture holds the hash of the library, and now that of the machine as well
    have heq : out.1 = official seed blob := Vector.toList_inj.mp (encodeHex_injective hpow)
    rw [heq] at hhash hmeets
    exact ⟨hheight, hid, hhash, difficulty, hdifficulty, of_decide_eq_true hmeets⟩
  · rintro ⟨hheight, hid, hhash, difficulty, hdifficulty, hmeets⟩
    obtain ⟨seedMem, hlight⟩ := exists_light_of_hash hhash
    obtain ⟨out, -, hout⟩ := exists_digest hrounds hlight blob
    obtain ⟨hhash', hmachines⟩ := hout p hp
    have heq := Except.ok.inj (hhash.symm.trans hhash')
    rw [heq] at hmeets ⊢
    exact ⟨seed, hseed, (), hheight, blob, hblob, (), hid, seedMem, hlight, out,
      (hmachines _ (Vm.isOn_newVm seedMem)).2, difficulty, hdifficulty, _, rfl, (),
      decide_eq_true hmeets, rfl⟩

/-- The builder writes a file if and only if its blocks are 20 in a row and `monero_block_input`
prints each of them for its record, on any host, with the hash of the official library. -/
theorem networkFixtureBuilder_moneroBlockInput {q : Process} (hq : q.IsBinary64)
    (fixtures : MoneroBlockFixtures) :
    networkFixtureBuilder cnFastHash blake2b grant rounds p official seedHeight seedHash rpcEndpoint
        records = some fixtures ↔
      fixtures.network = "mainnet".toList ∧ fixtures.rpcEndpoint = rpcEndpoint ∧
        fixtures.seedHeight = seedHeight ∧ fixtures.seedHash = seedHash ∧
        fixtures.blocks.length = 20 ∧
        (fixtures.blocks.map MoneroBlockFixture.header).IsChain Follows ∧
        ∃ seed, (decodeHex hashBytes seedHash).Returns seed ∧
          List.Forall₂ (fun record block => Describes cnFastHash (official seed) record block ∧
            moneroBlockInput cnFastHash blake2b grant rounds q seedHeight seedHash record
              = some block) records fixtures.blocks := by
  rw [networkFixtureBuilder_eq_some_iff hrounds hp]
  have hinput {seed : Hash} (hseed : (decodeHex hashBytes seedHash).Returns seed) :
      List.Forall₂ (fun record block => Describes cnFastHash (official seed) record block ∧
            moneroBlockInput cnFastHash blake2b grant rounds q seedHeight seedHash record
              = some block) records fixtures.blocks ↔
        List.Forall₂ (Describes cnFastHash (official seed)) records fixtures.blocks ∧
          ∀ block ∈ fixtures.blocks, randomxSeedHeight block.height = seedHeight ∧
            block.Attested cnFastHash (p.hash blake2b grant rounds seed) := by
    rw [hash_eq hrounds hp hq, ← forall₂_and_right]
    constructor
    · intro h
      exact h.imp fun record block hboth => ⟨hboth.1,
        (moneroBlockInput_eq_some_iff hrounds hq hseed hboth.1).mp hboth.2⟩
    · intro h
      exact h.imp fun record block hboth => ⟨hboth.1,
        (moneroBlockInput_eq_some_iff hrounds hq hseed hboth.1).mpr hboth.2⟩
  constructor
  · rintro ⟨hrpc, hheight, hhash, ⟨seed, hseed, hdescribes⟩, hvalid⟩
    obtain ⟨hnetwork, hlength, hchained, seed', hseed', hattested⟩ := hvalid
    rw [hhash] at hseed'
    obtain rfl := hseed.eq hseed'
    refine ⟨hnetwork, hrpc, hheight, hhash, hlength, hchained.follows, seed, hseed,
      (hinput hseed).mpr ⟨hdescribes, fun block hblock => ⟨?_, hattested block hblock⟩⟩⟩
    rw [← hheight]
    exact isSeedHeight_randomxSeedHeight.mp
      (hchained.seedHeight block.header (List.mem_map_of_mem hblock))
  · rintro ⟨hnetwork, hrpc, hheight, hhash, hlength, hfollows, seed, hseed, hblocks⟩
    obtain ⟨hdescribes, hall⟩ := (hinput hseed).mp hblocks
    refine ⟨hrpc, hheight, hhash, ⟨seed, hseed, hdescribes⟩, hnetwork, hlength, ⟨hfollows, ?_⟩,
      seed, ?_, fun block hblock => (hall block hblock).2⟩
    · intro header hheader
      obtain ⟨block, hblock, rfl⟩ := List.mem_map.mp hheader
      rw [hheight]
      exact isSeedHeight_randomxSeedHeight.mpr (hall block hblock).1
    · rwa [hhash]

omit hrounds hp in
/-- What is printed for each record of the repeated block is its fixture in the file. -/
lemma networkFixtureBuilder_moneroBlockInput_repeated :
    ∃ grant digest, ∀ record ∈ repeatedRecords 100,
      moneroBlockInput (fun _ => zeroHash) acceptedBlake2b grant 768 roundingProcess 0
          (encodeHex zeroHash.toList) record
        = some (.new record repeatedBlob digest) := by
  obtain ⟨grant, digest, hdigest⟩ := exists_hash_of_accepting accepting_acceptedBlake2b le_rfl
    isBinary64_roundingProcess zeroHash repeatedBlob
  have hbuilt : networkFixtureBuilder (fun _ => zeroHash) acceptedBlake2b grant 768 roundingProcess
      (fun _ _ => digest) 0 (encodeHex zeroHash.toList) [] (repeatedRecords 100)
        = some (repeatedFile 100 digest) :=
    (networkFixtureBuilder_eq_some_iff le_rfl isBinary64_roundingProcess _).mpr
      ⟨rfl, rfl, rfl, ⟨zeroHash, decodeHex_encodeHex zeroHash, describes_repeatedFile 100 digest⟩,
        valid_repeatedFile (by decide) hdigest⟩
  obtain ⟨-, -, -, -, -, -, seed, -, hprinted⟩ := (networkFixtureBuilder_moneroBlockInput le_rfl
    isBinary64_roundingProcess isBinary64_roundingProcess (repeatedFile 100 digest)).mp hbuilt
  have hblocks : (repeatedFile 100 digest).blocks
      = (repeatedRecords 100).map fun record => .new record repeatedBlob digest := rfl
  rw [hblocks, List.forall₂_map_right_iff, List.forall₂_same] at hprinted
  exact ⟨grant, digest, fun record hrecord => (hprinted record hrecord).2⟩

end

end RandomXSp1.Audit
