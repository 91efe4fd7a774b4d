import RandomXSp1.Audit.FixtureTheorems
import RandomXSp1.NetworkProver.Input

/-!
# Fixtures as inputs of the prover

What the audit's tools accept or print, `validate_input` accepts, but for blobs of another size,
strings with the plus signs that the audit's decoders let pass, a short timeout, and the first
block of an epoch's seed, where the two formulas for the seed height differ.
-/

namespace RandomXSp1.NetworkProver

open Audit (Hash IsAccepted flat byteOf isHexDigit encodeHex hashBytes MoneroBlockFixture
  carryChain_eq)

/-! ## Decoders -/

lemma length_flat (pairs : List (Char × Char)) : (flat pairs).length = 2 * pairs.length := by
  induction pairs with
  | nil => rfl
  | cons pair pairs ih =>
    rw [Audit.flat_cons, List.length_cons, List.length_cons, ih, List.length_cons]
    omega

/-- What was returned was read to the end. -/
lemma eq_of_reads {α : Type} {x : Outcome α} {toBytes : α → List U8} {pairs : List (Char × Char)}
    {rest : Str} {a : α} (h : Audit.Reads x toBytes pairs rest) (ha : x.Returns a) :
    rest = [] ∧ toBytes a = pairs.map byteOf := by
  by_cases hrest : rest = []
  · obtain ⟨a', ha', hbytes⟩ := h.returns hrest
    rw [ha.eq ha']
    exact ⟨hrest, hbytes⟩
  · cases hfront : takeBytes rest 2 with
    | none => exact absurd (h.panics hrest hfront) ha.not_panics
    | some front => exact absurd ha ((h.fails hrest front hfront).not_returns a)

/-- The strings that the audit's decoders accept. -/
lemma exists_pairs_of_decodeHex {N : ℕ} {value : Str} {bytes : Vector U8 N}
    (h : (Audit.decodeHex N value).Returns bytes) :
    ∃ pairs, (∀ pair ∈ pairs, IsAccepted pair) ∧ value = flat pairs ∧
      bytes.toList = pairs.map byteOf := by
  unfold Audit.decodeHex at h
  split at h
  · cases h
  · rename_i hlength
    obtain ⟨pairs, rest, rfl, hpairs, hends⟩ := Audit.exists_pairs value
    rw [List.range_eq_range'] at h
    have hreads : Audit.Reads ((List.range' 0 N).foldlM (Audit.decodeHexStep (flat pairs ++ rest))
        (Vector.replicate N 0)) Vector.toList pairs rest :=
      Audit.decodeHexLoop_reads (N := N) (fun pair hpair => absurd hpair List.not_mem_nil) hpairs
        hends (not_not.mp hlength) fun i hi => absurd hi (Nat.not_lt_zero i)
    obtain ⟨rfl, hbytes⟩ := eq_of_reads hreads h
    exact ⟨pairs, hpairs, List.append_nil _, hbytes⟩

lemma exists_pairs_of_decodeHexVec {value : Str} {bytes : List U8}
    (h : (Audit.decodeHexVec value).Returns bytes) :
    ∃ pairs, (∀ pair ∈ pairs, IsAccepted pair) ∧ value = flat pairs ∧
      bytes = pairs.map byteOf := by
  unfold Audit.decodeHexVec at h
  split at h
  · cases h
  · rename_i hlength
    obtain ⟨pairs, rest, rfl, hpairs, hends⟩ := Audit.exists_pairs value
    have heven : byteLen rest % 2 = 0 := by
      have hsum := not_not.mp hlength
      rw [byteLen_append, Audit.byteLen_flat hpairs] at hsum
      omega
    obtain ⟨rfl, hbytes⟩ := eq_of_reads (Audit.decodePairs_reads _ hpairs hends heven 0) h
    exact ⟨pairs, hpairs, List.append_nil _, hbytes⟩

section
variable (hex : HexDecode) {pairs : List (Char × Char)} (hpairs : ∀ pair ∈ pairs, IsAccepted pair)
include hpairs

/-- The prover's decoder agrees on the strings without plus signs, and rejects the others. -/
lemma hexDecode_flat (bytes : List U8) :
    hex.decode (flat pairs) = some bytes ↔ '+' ∉ flat pairs ∧ bytes = pairs.map byteOf := by
  have hmem {c : Char} : c ∈ flat pairs ↔ ∃ pair ∈ pairs, c = pair.1 ∨ c = pair.2 := by
    simp [flat, List.mem_flatMap]
  rw [hex.decode_eq_some]
  constructor
  · rintro ⟨hdigits, hlower⟩
    have hplus : '+' ∉ flat pairs := fun hc => absurd (hdigits '+' hc) (by decide)
    refine ⟨hplus, ?_⟩
    rw [← Audit.encodeHex_map_byteOf hpairs] at hlower
    · exact (Audit.encodeHex_injective hlower).symm
    · intro pair hpair heq
      exact hplus (hmem.mpr ⟨pair, hpair, Or.inl heq.symm⟩)
  · rintro ⟨hplus, rfl⟩
    have hfirst (pair) (hpair : pair ∈ pairs) : pair.1 ≠ '+' :=
      fun heq => hplus (hmem.mpr ⟨pair, hpair, Or.inl heq.symm⟩)
    refine ⟨?_, (Audit.encodeHex_map_byteOf hpairs hfirst).symm⟩
    intro c hc
    obtain ⟨pair, hpair, rfl | rfl⟩ := hmem.mp hc
    · exact (hpairs pair hpair).1.resolve_right (hfirst pair hpair)
    · exact (hpairs pair hpair).2

omit hex in
/-- An accepted string has no prefix to strip. -/
lemma stripHexPrefix_flat : Audit.stripHexPrefix (flat pairs) = flat pairs := by
  cases pairs with
  | nil => rfl
  | cons pair pairs =>
    have hsecond := (hpairs pair List.mem_cons_self).2
    obtain ⟨a, b⟩ := pair
    rw [Audit.flat_cons]
    unfold Audit.stripHexPrefix
    split
    · rename_i heq
      obtain ⟨-, heq⟩ := List.cons.inj heq
      obtain ⟨rfl, -⟩ := List.cons.inj heq
      have hdigit : isHexDigit 'x' = true := hsecond
      exact absurd hdigit (by decide)
    · rename_i heq
      obtain ⟨-, heq⟩ := List.cons.inj heq
      obtain ⟨rfl, -⟩ := List.cons.inj heq
      have hdigit : isHexDigit 'X' = true := hsecond
      exact absurd hdigit (by decide)
    · rfl

end

section
variable (hex : HexDecode) {value : Str} {name : String}

lemma hexDecode_of_decodeHexVec {bytes bytes' : List U8}
    (h : (Audit.decodeHexVec value).Returns bytes) :
    hex.decode value = some bytes' ↔ '+' ∉ value ∧ bytes' = bytes := by
  obtain ⟨pairs, hpairs, rfl, rfl⟩ := exists_pairs_of_decodeHexVec h
  exact hexDecode_flat hex hpairs bytes'

lemma decode32_of_decodeHex {hash hash' : Hash}
    (h : (Audit.decodeHex hashBytes value).Returns hash) :
    (decode32 hex value name).Returns hash' ↔ '+' ∉ value ∧ hash' = hash := by
  obtain ⟨pairs, hpairs, rfl, hbytes⟩ := exists_pairs_of_decodeHex h
  have hlength : (pairs.map byteOf).length = 32 := by
    rw [← hbytes, Vector.length_toList]
    rfl
  unfold decode32
  rw [stripHexPrefix_flat hpairs]
  simp only [Outcome.bind_returns, Outcome.context_returns, hexDecode_flat hex hpairs]
  constructor
  · rintro ⟨_, ⟨hplus, rfl⟩, hreturns⟩
    rw [dif_pos hlength] at hreturns
    cases hreturns
    refine ⟨hplus, Vector.toList_inj.mp ?_⟩
    rw [hbytes]
    rfl
  · rintro ⟨hplus, rfl⟩
    refine ⟨_, ⟨hplus, rfl⟩, ?_⟩
    rw [dif_pos hlength]
    have heq : (⟨(pairs.map byteOf).toArray, hlength⟩ : Hash) = hash' := by
      apply Vector.toList_inj.mp
      rw [hbytes]
      rfl
    rw [heq]
    rfl

end

lemma plus_not_mem_encodeHex (bytes : List U8) : '+' ∉ encodeHex bytes := by
  intro h
  obtain ⟨-, -, hdigits, -⟩ := Audit.encodeHex_spec bytes
  exact absurd (hdigits '+' h) (by decide)

/-- Both crates read difficulties alike. -/
lemma parseDifficulty_returns {value : Str} {difficulty : U64} :
    (parseDifficulty value).Returns difficulty ↔
      (Audit.parseWideDifficulty value).Returns difficulty := by
  unfold parseDifficulty Audit.parseWideDifficulty
  rw [Outcome.context_returns]
  cases Audit.u64FromStrRadix16 (Audit.stripHexPrefix value) with
  | none => exact ⟨nofun, nofun⟩
  | some difficulty' => exact ⟨fun h => by cases h; rfl, fun h => by cases h; rfl⟩

/-- The formulas for the seed height agree but at the first block of an epoch's seed. -/
lemma randomxSeedHeight_eq_iff (height : U64) :
    Audit.randomxSeedHeight height = randomxSeedHeight height ↔
      ¬(2112 ≤ height.toNat ∧ height.toNat % 2048 = 64) := by
  rw [← BitVec.toNat_inj, Audit.toNat_proverSeedHeight, Audit.toNat_randomxSeedHeight]
  omega

/-- A decoder as `HexDecode` asks for. -/
def decodeDigits : Str → Option (List U8)
  | [] => some []
  | a :: b :: rest =>
    if isHexDigit a = true ∧ isHexDigit b = true then
      (decodeDigits rest).map (byteOf (a, b) :: ·)
    else none
  | [_] => none

lemma decodeDigits_eq_some (value : Str) (bytes : List U8) :
    decodeDigits value = some bytes ↔
      (∀ c ∈ value, isHexDigit c = true) ∧ value.map Char.toLower = encodeHex bytes := by
  induction value using decodeDigits.induct generalizing bytes with
  | case1 =>
    rw [decodeDigits, Option.some_inj]
    constructor
    · rintro rfl
      exact ⟨fun _ hc => absurd hc List.not_mem_nil, rfl⟩
    · intro h
      exact Audit.encodeHex_injective h.2
  | case2 a b rest hdigits ih =>
    have hpair : ∀ pair ∈ [(a, b)], IsAccepted pair := by
      intro pair hpair
      rw [List.mem_singleton.mp hpair]
      exact ⟨Or.inl hdigits.1, hdigits.2⟩
    have hplus : ∀ pair ∈ [(a, b)], pair.1 ≠ '+' := by
      intro pair hpair heq
      rw [List.mem_singleton.mp hpair] at heq
      have ha := hdigits.1
      rw [show a = '+' from heq] at ha
      exact absurd ha (by decide)
    -- two digits are one byte, which is written as they are in lower case
    have hbyte : encodeHex [byteOf (a, b)] = [a.toLower, b.toLower] :=
      Audit.encodeHex_map_byteOf hpair hplus
    have hcons (tail : List U8) : encodeHex (byteOf (a, b) :: tail)
        = a.toLower :: b.toLower :: encodeHex tail := by
      have hone := hbyte
      rw [Audit.encodeHex_cons] at hone ⊢
      obtain ⟨hfst, hsnd⟩ := List.cons.inj hone
      rw [hfst, (List.cons.inj hsnd).1]
    rw [decodeDigits, if_pos hdigits, Option.map_eq_some_iff]
    constructor
    · rintro ⟨tail, htail, rfl⟩
      obtain ⟨hrest, hlower⟩ := (ih tail).mp htail
      refine ⟨List.forall_mem_cons.mpr ⟨hdigits.1, List.forall_mem_cons.mpr ⟨hdigits.2, hrest⟩⟩, ?_⟩
      rw [hcons, ← hlower]
      rfl
    · rintro ⟨hall, hlower⟩
      have hrest := (List.forall_mem_cons.mp (List.forall_mem_cons.mp hall).2).2
      cases bytes with
      | nil => cases hlower
      | cons byte tail =>
        have hlower' : a.toLower :: b.toLower :: rest.map Char.toLower
            = encodeHex (byte :: tail) := hlower
        rw [Audit.encodeHex_cons] at hlower'
        obtain ⟨hfst, hmore⟩ := List.cons.inj hlower'
        obtain ⟨hsnd, htail⟩ := List.cons.inj hmore
        -- the first byte is determined by the two characters it is written as
        have heq : byteOf (a, b) = byte := by
          have hone : encodeHex [byteOf (a, b)] = encodeHex [byte] := by
            rw [hbyte, Audit.encodeHex_cons, hfst, hsnd]
            rfl
          exact (List.cons.inj (Audit.encodeHex_injective hone)).1
        exact ⟨tail, (ih tail).mpr ⟨hrest, htail⟩, by rw [heq]⟩
  | case3 a b rest hdigits =>
    rw [decodeDigits, if_neg hdigits]
    refine ⟨nofun, fun h => absurd ⟨?_, ?_⟩ hdigits⟩
    · exact h.1 a List.mem_cons_self
    · exact h.1 b (List.mem_cons_of_mem a List.mem_cons_self)
  | case4 c =>
    refine ⟨nofun, ?_⟩
    rintro ⟨-, hlower⟩
    cases bytes with
    | nil => cases hlower
    | cons byte tail =>
      have hlength := congrArg List.length hlower
      rw [Audit.encodeHex_cons] at hlength
      simp at hlength

/-! ## Inputs -/

/-- What passes. -/
lemma validateInput_returns {hex : HexDecode} {keccak256 : List U8 → Hash} {input : ProofInput} :
    (validateInput hex keccak256 input).Returns () ↔
      input.network = "monero-mainnet".toList ∧
        ∃ blockId, (decode32 hex input.blockId "block ID").Returns blockId ∧
        (∃ hash, (decode32 hex input.prevHash "previous block hash").Returns hash) ∧
        (∃ hash, (decode32 hex input.seedHash "RandomX seed hash").Returns hash) ∧
        ∃ powHash, (decode32 hex input.powHash "PoW hash").Returns powHash ∧
        ∃ blob, hex.decode input.hashingBlob = some blob ∧ blob.length = 77 ∧
        Audit.blobObjectHash keccak256 blob = blockId ∧
        input.seedHeight = randomxSeedHeight input.height ∧
        ∃ difficulty, (Audit.parseWideDifficulty input.wideDifficulty).Returns difficulty ∧
        leBytesToNat powHash.toList * difficulty.toNat < 2 ^ 256 ∧
        600 ≤ input.requestTimeoutSeconds.toNat := by
  have htimeout : ¬input.requestTimeoutSeconds < minRequestTimeoutSecs ↔
      600 ≤ input.requestTimeoutSeconds.toNat := by
    rw [BitVec.not_lt]
    exact Iff.rfl
  rw [← htimeout]
  unfold validateInput
  simp only [Outcome.bind_returns, Outcome.bailIf_returns, Outcome.context_returns,
    Outcome.expect_returns, parseDifficulty_returns, not_not]
  constructor
  · rintro ⟨_, hnetwork, blockId, hblockId, prevHash, hprev, seed, hseed, powHash, hpow, blob,
      hblob, _, hsize, _, hid, _, hheight, difficulty, hdifficulty, meets, hmeets, _, hpass, hlong⟩
    refine ⟨hnetwork, blockId, hblockId, ⟨prevHash, hprev⟩, ⟨seed, hseed⟩, powHash, hpow, blob,
      hblob, hsize, hid, hheight, difficulty, hdifficulty, ?_, hlong⟩
    unfold meetsDifficulty at hmeets
    rw [carryChain_eq] at hmeets
    obtain rfl := Option.some.inj hmeets
    exact of_decide_eq_true (Bool.eq_true_of_not_eq_false hpass)
  · rintro ⟨hnetwork, blockId, hblockId, ⟨prevHash, hprev⟩, ⟨seed, hseed⟩, powHash, hpow, blob,
      hblob, hsize, hid, hheight, difficulty, hdifficulty, hmeets, hlong⟩
    refine ⟨(), hnetwork, blockId, hblockId, prevHash, hprev, seed, hseed, powHash, hpow, blob,
      hblob, (), hsize, (), hid, (), hheight, difficulty, hdifficulty, true, ?_, (), by decide,
      hlong⟩
    unfold meetsDifficulty
    rw [carryChain_eq, decide_eq_true hmeets]

/-- A fixture that the audit's tools attest passes the prover's checks if and only if its blob has
77 bytes, none of its strings has a plus sign, the timeout is long enough and the block is not the
first one of its epoch's seed. -/
theorem validateInput_ofFixture (hex : HexDecode) {keccak256 : List U8 → Hash}
    {digest : List U8 → Except Fault Hash} {block : MoneroBlockFixture}
    (hattested : block.Attested keccak256 digest) {prevHash seed : Hash} {seedHash : Str}
    (hprev : (Audit.decodeHex hashBytes block.prevHash).Returns prevHash)
    (hseed : (Audit.decodeHex hashBytes seedHash).Returns seed)
    (cycleLimit gasLimit requestTimeoutSeconds : U64) :
    (validateInput hex keccak256 (.ofFixture block (Audit.randomxSeedHeight block.height) seedHash
        cycleLimit gasLimit requestTimeoutSeconds)).Returns () ↔
      block.hashingBlob.length = 154 ∧
        (∀ value ∈ [block.prevHash, seedHash, block.powHash, block.hashingBlob], '+' ∉ value) ∧
        600 ≤ requestTimeoutSeconds.toNat ∧
        ¬(2112 ≤ block.height.toNat ∧ block.height.toNat % 2048 = 64) := by
  obtain ⟨blob, powHash, difficulty, hblob, hid, hpow, -, hdifficulty, hmeets⟩ := hattested
  have hblockId : (Audit.decodeHex hashBytes block.blockId).Returns
      (Audit.blobObjectHash keccak256 blob) := by
    rw [← hid]
    exact Audit.decodeHex_encodeHex _
  have hplus : '+' ∉ block.blockId := by
    rw [← hid]
    exact plus_not_mem_encodeHex _
  have hlength : block.hashingBlob.length = 154 ↔ blob.length = 77 := by
    obtain ⟨pairs, -, heq, rfl⟩ := exists_pairs_of_decodeHexVec hblob
    rw [heq, length_flat, List.length_map]
    omega
  rw [hlength, ← randomxSeedHeight_eq_iff, validateInput_returns]
  constructor
  · rintro ⟨-, _, -, ⟨_, hprev'⟩, ⟨_, hseed'⟩, _, hpow', blob', hblob', hsize, -, hheight, _, -, -,
      hlong⟩
    -- each decoder of the prover vouches for its string
    obtain ⟨hprevPlus, -⟩ := (decode32_of_decodeHex hex hprev).mp hprev'
    obtain ⟨hseedPlus, -⟩ := (decode32_of_decodeHex hex hseed).mp hseed'
    obtain ⟨hpowPlus, -⟩ := (decode32_of_decodeHex hex hpow).mp hpow'
    obtain ⟨hblobPlus, rfl⟩ := (hexDecode_of_decodeHexVec hex hblob).mp hblob'
    refine ⟨hsize, ?_, hlong, hheight⟩
    intro value hvalue
    simp only [List.mem_cons, List.not_mem_nil, or_false] at hvalue
    rcases hvalue with rfl | rfl | rfl | rfl
    · exact hprevPlus
    · exact hseedPlus
    · exact hpowPlus
    · exact hblobPlus
  · rintro ⟨hsize, hall, hlong, hheight⟩
    exact ⟨rfl, _, (decode32_of_decodeHex hex hblockId).mpr ⟨hplus, rfl⟩,
      ⟨_, (decode32_of_decodeHex hex hprev).mpr ⟨hall _ (by simp), rfl⟩⟩,
      ⟨_, (decode32_of_decodeHex hex hseed).mpr ⟨hall _ (by simp), rfl⟩⟩,
      _, (decode32_of_decodeHex hex hpow).mpr ⟨hall _ (by simp), rfl⟩,
      _, (hexDecode_of_decodeHexVec hex hblob).mpr ⟨hall _ (by simp), rfl⟩,
      hsize, rfl, hheight, difficulty, hdifficulty, hmeets, hlong⟩

/-- A block of zeros passes. -/
lemma validateInput_ofFixture_zeros :
    let zeros : Str := List.replicate 64 '0'
    let block : MoneroBlockFixture :=
      { height := 100, blockId := zeros, prevHash := zeros, timestamp := 0,
        wideDifficulty := ['0', 'x', '1'], hashingBlob := List.replicate 154 '0', powHash := zeros }
    (validateInput ⟨decodeDigits, decodeDigits_eq_some⟩ (fun _ => Vector.replicate _ 0)
      (.ofFixture block (Audit.randomxSeedHeight block.height) zeros 0 0 600)).Returns () := by
  intro zeros block
  have hzeros : (Audit.decodeHex hashBytes zeros).Returns (Vector.replicate _ 0) := by
    have hencode : zeros = encodeHex (Vector.replicate hashBytes 0).toList := by decide
    rw [hencode]
    exact Audit.decodeHex_encodeHex _
  have hblob : (Audit.decodeHexVec block.hashingBlob).Returns (List.replicate 77 0) := by
    have hencode : block.hashingBlob = encodeHex (List.replicate 77 0) := by decide
    rw [hencode]
    exact Audit.decodeHexVec_encodeHex _
  have hattested : block.Attested (fun _ => Vector.replicate _ 0)
      (fun _ => .ok (Vector.replicate _ 0)) :=
    ⟨_, Vector.replicate _ 0, 1, hblob, by decide, hzeros, rfl, rfl, by decide⟩
  exact (validateInput_ofFixture _ hattested hzeros hzeros 0 0 600).mpr
    ⟨List.length_replicate, by decide, by decide, by decide⟩

end RandomXSp1.NetworkProver
