import RandomXSp1.Audit.BlobTheorems
import RandomXSp1.Audit.FixtureTheorems
import RandomXSp1.HashChain

/-!
# The last ID of a file

The ID of a block is a hash of its blob, and the blob contains the ID of the block before it. So the
last ID in a file of the builder stands for all its blobs, but not for their heights.
-/

namespace RandomXSp1.Audit

/-! ## IDs -/

/-- What the ID of a block is the hash of. -/
def serializedBlob (blob : List U8) : List U8 := varint (BitVec.ofNat 64 blob.length) ++ blob

lemma serializedBlob_injective : Function.Injective serializedBlob :=
  fun _ _ h => (prefixCode_varint h).2

section
variable {cnFastHash : List U8 → Hash}

/-- The ID of a block with these fields. -/
def BlobFields.id (cnFastHash : List U8 → Hash) (fields : BlobFields) : Hash :=
  blobObjectHash cnFastHash fields.encode

/-- The block records the fields. -/
structure MoneroBlockFixture.Holds (cnFastHash : List U8 → Hash) (block : MoneroBlockFixture)
    (fields : BlobFields) : Prop where
  hashingBlob : block.hashingBlob = encodeHex fields.encode
  blockId : block.blockId = encodeHex (fields.id cnFastHash).toList
  timestamp : block.timestamp = fields.timestamp
  prevHash : (decodeHex hashBytes block.prevHash).Returns fields.prevHash

lemma exists_holds {official : List U8 → Hash} {digest : List U8 → Except Fault Hash}
    {record : RpcBlock} {block : MoneroBlockFixture}
    (hdescribes : Describes cnFastHash official record block)
    (hattested : block.Attested cnFastHash digest) :
    ∃ fields, block.Holds cnFastHash fields := by
  obtain ⟨blob, hblob, rfl⟩ := hdescribes
  obtain ⟨hid, -⟩ := attested_new_iff.mp hattested
  obtain ⟨txHashes, fields, hfields, rfl⟩ := hashingBlob_returns cnFastHash hblob
  exact ⟨fields, rfl, hid.symm, hfields.timestamp.symm, hfields.prevHash⟩

lemma MoneroBlockFixture.Holds.prevHash_eq {previous next : MoneroBlockFixture}
    {fields fields' : BlobFields} (h : previous.Holds cnFastHash fields)
    (h' : next.Holds cnFastHash fields') (hfollows : Follows previous.header next.header) :
    fields'.prevHash = fields.id cnFastHash := by
  have hprevHash := h'.prevHash
  have hid : next.prevHash = previous.blockId := hfollows.2
  rw [hid, h.blockId] at hprevHash
  exact hprevHash.eq (decodeHex_encodeHex _)

/-- The fields of a chain of blocks are a hash chain. -/
lemma exists_linked {blocks : List MoneroBlockFixture}
    (hholds : ∀ block ∈ blocks, ∃ fields, block.Holds cnFastHash fields)
    (hfollows : (blocks.map MoneroBlockFixture.header).IsChain Follows) :
    ∃ chain, List.Forall₂ (MoneroBlockFixture.Holds cnFastHash) blocks chain ∧
      Linked (BlobFields.id cnFastHash) BlobFields.prevHash chain := by
  induction blocks with
  | nil => exact ⟨[], .nil, .nil⟩
  | cons block blocks ih =>
    rw [List.forall_mem_cons] at hholds
    rw [List.map_cons, List.isChain_cons] at hfollows
    obtain ⟨fields, hfields⟩ := hholds.1
    obtain ⟨chain, hchain, hlinked⟩ := ih hholds.2 hfollows.2
    refine ⟨fields :: chain, .cons hfields hchain, List.isChain_cons.mpr ⟨?_, hlinked⟩⟩
    cases hchain with
    | nil =>
      intro _ h
      cases h
    | @cons next fields' _ _ hnext _ =>
      rintro _ ⟨⟩
      exact hfields.prevHash_eq hnext (hfollows.1 next.header rfl)

lemma map_eq_map_of_forall₂ {α β γ : Type} {R : α → β → Prop} {f : α → γ} {g : β → γ}
    (h : ∀ a b, R a b → f a = g b) {l : List α} {l' : List β} (hR : List.Forall₂ R l l') :
    l.map f = l'.map g := by
  induction hR with
  | nil => rfl
  | cons hab _ ih => rw [List.map_cons, List.map_cons, h _ _ hab, ih]

/-! ## Files -/

section
variable {official official' : List U8 → Hash} {hash hash' : Hash → List U8 → Except Fault Hash}
  {records records' : List RpcBlock} {fixtures fixtures' : MoneroBlockFixtures}

lemma exists_chain (hvalid : fixtures.Valid cnFastHash hash)
    (hdescribes : List.Forall₂ (Describes cnFastHash official) records fixtures.blocks) :
    ∃ chain, List.Forall₂ (MoneroBlockFixture.Holds cnFastHash) fixtures.blocks chain ∧
      Linked (BlobFields.id cnFastHash) BlobFields.prevHash chain := by
  obtain ⟨seed, -, hattested⟩ := hvalid.attested
  refine exists_linked ?_ hvalid.chained.follows
  intro block hblock
  obtain ⟨k, hk, rfl⟩ := List.getElem_of_mem hblock
  have hrecord := hdescribes.get (hdescribes.length_eq ▸ hk) hk
  exact exists_holds hrecord (hattested _ hblock)

/-- Two files of the builder that end with the same ID have the same IDs, timestamps and blobs
throughout, or two of their blobs are a collision of the hash. -/
theorem blocks_eq_or_collides (hvalid : fixtures.Valid cnFastHash hash)
    (hvalid' : fixtures'.Valid cnFastHash hash')
    (hdescribes : List.Forall₂ (Describes cnFastHash official) records fixtures.blocks)
    (hdescribes' : List.Forall₂ (Describes cnFastHash official') records' fixtures'.blocks)
    (hlast : fixtures.blocks.getLast?.map MoneroBlockFixture.blockId
      = fixtures'.blocks.getLast?.map MoneroBlockFixture.blockId) :
    fixtures.blocks.map (fun block => (block.blockId, block.timestamp, block.hashingBlob))
        = fixtures'.blocks.map (fun block => (block.blockId, block.timestamp, block.hashingBlob)) ∨
      ∃ blob blob', encodeHex blob ∈ fixtures.blocks.map MoneroBlockFixture.hashingBlob ∧
        encodeHex blob' ∈ fixtures'.blocks.map MoneroBlockFixture.hashingBlob ∧
        serializedBlob blob ≠ serializedBlob blob' ∧
        cnFastHash (serializedBlob blob) = cnFastHash (serializedBlob blob') := by
  obtain ⟨chain, hchain, hlinked⟩ := exists_chain hvalid hdescribes
  obtain ⟨chain', hchain', hlinked'⟩ := exists_chain hvalid' hdescribes'
  have hlength : chain.length = chain'.length := by
    rw [← hchain.length_eq, ← hchain'.length_eq, hvalid.length, hvalid'.length]
  have hids : chain.getLast?.map (fun fields => encodeHex (fields.id cnFastHash).toList)
      = chain'.getLast?.map (fun fields => encodeHex (fields.id cnFastHash).toList) := by
    rw [← List.getLast?_map, ← List.getLast?_map] at hlast ⊢
    rwa [map_eq_map_of_forall₂ (fun _ _ h => h.blockId) hchain,
      map_eq_map_of_forall₂ (fun _ _ h => h.blockId) hchain'] at hlast
  have hsame : ∀ a ∈ chain.getLast?, ∀ a' ∈ chain'.getLast?,
      a.id cnFastHash = a'.id cnFastHash := by
    intro a ha a' ha'
    rw [Option.mem_def.mp ha, Option.mem_def.mp ha'] at hids
    exact Vector.toList_inj.mp (encodeHex_injective (Option.some.inj hids))
  cases hlinked.isSuffix_or_collides hlength.le hlinked' hsame with
  | inl hsuffix =>
    -- of two lists of the same length, the end is the whole
    left
    have hentries {block : MoneroBlockFixture} {fields : BlobFields}
        (h : block.Holds cnFastHash fields) :
        (block.blockId, block.timestamp, block.hashingBlob)
          = (encodeHex (fields.id cnFastHash).toList, fields.timestamp,
            encodeHex fields.encode) := by
      rw [h.blockId, h.timestamp, h.hashingBlob]
    rw [map_eq_map_of_forall₂ (fun _ _ h => hentries h) hchain,
      map_eq_map_of_forall₂ (fun _ _ h => hentries h) hchain', hsuffix.eq_of_length hlength]
  | inr hcollides =>
    right
    obtain ⟨fields, hfields, fields', hfields', hne, heq⟩ := hcollides
    refine ⟨fields.encode, fields'.encode, ?_, ?_, ?_, heq⟩
    · rw [map_eq_map_of_forall₂ (fun _ _ h => h.hashingBlob) hchain]
      exact List.mem_map_of_mem hfields
    · rw [map_eq_map_of_forall₂ (fun _ _ h => h.hashingBlob) hchain']
      exact List.mem_map_of_mem hfields'
    -- the fields can be read back from the blob, so different fields have different blobs
    · intro hserialized
      exact hne (prefixCode_encode.injective (serializedBlob_injective hserialized))

end

end

/-- With a hash that is constant, files of different heights end with the same ID. -/
lemma blocks_eq_or_collides_repeatedFile :
    (repeatedFile 100 zeroHash).blocks.map MoneroBlockFixture.hashingBlob
      = (repeatedFile 1000 zeroHash).blocks.map MoneroBlockFixture.hashingBlob := by
  have hsame {height : U64} {blob : List U8}
      (h : encodeHex blob ∈ (repeatedFile height zeroHash).blocks.map MoneroBlockFixture.hashingBlob) :
      blob = repeatedBlob := by
    simp only [repeatedFile, List.map_map, List.mem_map] at h
    obtain ⟨_, -, h⟩ := h
    exact encodeHex_injective h.symm
  have hvalid {height : U64} (h : height.toNat ≤ 2000) :
      (repeatedFile height zeroHash).Valid (fun _ => zeroHash) fun _ _ => .ok zeroHash :=
    valid_repeatedFile h rfl
  cases blocks_eq_or_collides (hvalid (by decide)) (hvalid (by decide))
      (describes_repeatedFile 100 zeroHash) (describes_repeatedFile 1000 zeroHash) rfl with
  | inl heq =>
    have hblobs := congrArg (List.map fun entry => entry.2.2) heq
    rwa [List.map_map, List.map_map] at hblobs
  | inr hcollides =>
    obtain ⟨blob, blob', hblob, hblob', hne, -⟩ := hcollides
    rw [hsame hblob, hsame hblob'] at hne
    exact absurd rfl hne

end RandomXSp1.Audit
