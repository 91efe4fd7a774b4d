import RandomXSp1.Audit.HexTheorems
import RandomXSp1.HashChain

/-!
# The hashing blob

The blob is the fields of the block one after the other, each in a prefix code: what was hashed
determines every one of them.
-/

namespace RandomXSp1.Audit

/-! ## Varints -/

/-- What is appended for a value. -/
def varint (value : U64) : List U8 := appendVarint value []

lemma toNat_ushiftRight_seven (value : U64) : (value >>> 7).toNat = value.toNat / 128 := by
  rw [BitVec.toNat_ushiftRight, Nat.shiftRight_eq_div_pow]

set_option maxRecDepth 2000 in
lemma toNat_or_high : ∀ byte : U8, (byte ||| 0x80).toNat = byte.toNat % 128 + 128 := by
  decide

lemma toNat_continued (value : U64) :
    (value.setWidth 8 ||| 0x80).toNat = value.toNat % 128 + 128 := by
  rw [toNat_or_high, BitVec.toNat_setWidth]
  omega

lemma toNat_last {value : U64} (h : ¬0x80 ≤ value) : (value.setWidth 8).toNat = value.toNat := by
  have hlt : value.toNat < 128 := Nat.lt_of_not_le h
  rw [BitVec.toNat_setWidth, Nat.mod_eq_of_lt (by omega)]

lemma appendVarint_append (value : U64) (output output' : List U8) :
    appendVarint value (output ++ output') = output ++ appendVarint value output' := by
  induction value, output' using appendVarint.induct with
  | case1 value output' h ih =>
    rw [appendVarint, if_pos h, List.append_assoc, ih]
    conv_rhs => rw [appendVarint, if_pos h]
  | case2 value output' h =>
    rw [appendVarint, if_neg h, List.append_assoc]
    conv_rhs => rw [appendVarint, if_neg h]

lemma appendVarint_eq (value : U64) (output : List U8) :
    appendVarint value output = output ++ varint value := by
  have happend := appendVarint_append value output []
  rwa [List.append_nil] at happend

lemma varint_of_le {value : U64} (h : 0x80 ≤ value) :
    varint value = (value.setWidth 8 ||| 0x80) :: varint (value >>> 7) := by
  conv_lhs => unfold varint; rw [appendVarint, if_pos h, appendVarint_eq]
  rfl

lemma varint_of_lt {value : U64} (h : ¬0x80 ≤ value) : varint value = [value.setWidth 8] := by
  unfold varint
  rw [appendVarint, if_neg h]
  rfl

/-- The bytes are the digits of the number in base 128, little-endian and without superfluous
ones, and the high bit of a byte says whether another one follows. -/
def IsVarint (value : ℕ) (bytes : List U8) : Prop :=
  ∃ init last, bytes = init ++ [last] ∧ (∀ byte ∈ init, 128 ≤ byte.toNat) ∧ last.toNat < 128 ∧
    (value ≠ 0 → last ≠ 0) ∧
    bytes.map (fun byte => byte.toNat % 128) = if value = 0 then [0] else Nat.digits 128 value

lemma isVarint_varint (value : U64) : IsVarint value.toNat (varint value) := by
  induction hvalue : value.toNat using Nat.strongRecOn generalizing value with
  | ind n ih =>
    subst hvalue
    by_cases h : 0x80 ≤ value
    · -- seven bits now, the others by induction
      have hle : 128 ≤ value.toNat := h
      have hshift := toNat_ushiftRight_seven value
      obtain ⟨init, last, hbytes, hinit, hlast, hzero, hdigits⟩ :=
        ih (value >>> 7).toNat (by omega) (value >>> 7) rfl
      rw [varint_of_le h]
      refine ⟨(value.setWidth 8 ||| 0x80) :: init, last, ?_, ?_, hlast, ?_, ?_⟩
      · rw [hbytes]
        rfl
      · intro byte hbyte
        cases List.mem_cons.mp hbyte with
        | inl heq =>
          rw [heq, toNat_continued]
          omega
        | inr hmem => exact hinit byte hmem
      · intro _
        exact hzero (by omega)
      · have hne : value.toNat / 128 ≠ 0 := by omega
        rw [List.map_cons, hdigits, hshift, if_neg hne, if_neg (by omega), toNat_continued,
          Nat.add_mod_right, Nat.mod_mod]
        exact (Nat.digits_def' (by norm_num) (by omega)).symm
    · have hlt : value.toNat < 128 := Nat.lt_of_not_le h
      rw [varint_of_lt h]
      refine ⟨[], value.setWidth 8, rfl, ?_, ?_, ?_, ?_⟩
      · intro byte hbyte
        exact absurd hbyte List.not_mem_nil
      · rw [toNat_last h]
        exact hlt
      · intro hne hzero
        rw [← toNat_last h, hzero] at hne
        exact hne rfl
      · rw [List.map_singleton, toNat_last h, Nat.mod_eq_of_lt hlt]
        by_cases hzero : value.toNat = 0
        · rw [if_pos hzero, hzero]
        · rw [if_neg hzero, Nat.digits_of_lt 128 _ hzero hlt]

lemma length_varint_le (value : U64) : (varint value).length ≤ 10 := by
  obtain ⟨init, last, -, -, -, -, hdigits⟩ := isVarint_varint value
  have hlength := congrArg List.length hdigits
  rw [List.length_map] at hlength
  rw [hlength]
  split
  · norm_num
  · have hlt : value.toNat < 128 ^ 10 := lt_trans value.isLt (by norm_num)
    exact (Nat.digits_length_le_iff (by norm_num) _).mpr hlt

/-- A byte with its high bit set continues, and one without it ends the value. -/
lemma prefixCode_varint : PrefixCode varint := by
  intro value value' rest rest' heq
  induction hvalue : value.toNat using Nat.strongRecOn generalizing value value' with
  | ind n ih =>
    subst hvalue
    by_cases h : 0x80 ≤ value
    · have hle : 128 ≤ value.toNat := h
      by_cases h' : 0x80 ≤ value'
      · rw [varint_of_le h, varint_of_le h', List.cons_append, List.cons_append] at heq
        obtain ⟨hhead, htail⟩ := List.cons.inj heq
        have hshift := toNat_ushiftRight_seven value
        have hshift' := toNat_ushiftRight_seven value'
        obtain ⟨hhigh, hrest⟩ := ih (value >>> 7).toNat (by omega) htail rfl
        have hlow := congrArg BitVec.toNat hhead
        rw [toNat_continued, toNat_continued] at hlow
        rw [hhigh] at hshift
        exact ⟨BitVec.eq_of_toNat_eq (by omega), hrest⟩
      · rw [varint_of_le h, varint_of_lt h'] at heq
        have hhead := congrArg BitVec.toNat (List.cons.inj heq).1
        rw [toNat_continued, toNat_last h'] at hhead
        have hlt : value'.toNat < 128 := Nat.lt_of_not_le h'
        omega
    · have hlt : value.toNat < 128 := Nat.lt_of_not_le h
      by_cases h' : 0x80 ≤ value'
      · rw [varint_of_lt h, varint_of_le h'] at heq
        have hhead := congrArg BitVec.toNat (List.cons.inj heq).1
        rw [toNat_continued, toNat_last h] at hhead
        omega
      · rw [varint_of_lt h, varint_of_lt h'] at heq
        obtain ⟨hhead, hrest⟩ := List.cons.inj heq
        have hvalue := congrArg BitVec.toNat hhead
        rw [toNat_last h, toNat_last h'] at hvalue
        exact ⟨BitVec.eq_of_toNat_eq hvalue, hrest⟩

/-! ## The fields -/

lemma prefixCode_toLeBytes : PrefixCode toLeBytes := by
  apply PrefixCode.of_length _ 4 (fun _ => rfl)
  intro value value' h
  obtain ⟨h0, h⟩ := List.cons.inj h
  obtain ⟨h1, h⟩ := List.cons.inj h
  obtain ⟨h2, h⟩ := List.cons.inj h
  obtain ⟨h3, -⟩ := List.cons.inj h
  have hbytes (v : U32) : v.toNat = (v.setWidth 8).toNat + 2 ^ 8 * ((v >>> 8).setWidth 8).toNat
      + 2 ^ 16 * ((v >>> 16).setWidth 8).toNat + 2 ^ 24 * ((v >>> 24).setWidth 8).toNat := by
    simp only [BitVec.toNat_setWidth, BitVec.toNat_ushiftRight, Nat.shiftRight_eq_div_pow]
    have hlt := v.isLt
    omega
  apply BitVec.eq_of_toNat_eq
  rw [hbytes value, hbytes value', h0, h1, h2, h3]

lemma prefixCode_toList (n : ℕ) : PrefixCode (Vector.toList : Vector U8 n → List U8) :=
  PrefixCode.of_length (fun _ _ h => Vector.toList_inj.mp h) n
    fun bytes => bytes.length_toList

/-- What the blob is made of, in order. -/
structure BlobFields where
  majorVersion : U64
  minorVersion : U64
  timestamp : U64
  prevHash : Hash
  nonce : U32
  root : Hash
  count : U64

def BlobFields.encode (fields : BlobFields) : List U8 :=
  varint fields.majorVersion ++ (varint fields.minorVersion ++ (varint fields.timestamp ++
    (fields.prevHash.toList ++ (toLeBytes fields.nonce ++ (fields.root.toList ++
      varint fields.count)))))

lemma prefixCode_encode : PrefixCode BlobFields.encode := by
  have hcode := prefixCode_varint.append (prefixCode_varint.append (prefixCode_varint.append
    ((prefixCode_toList hashBytes).append (prefixCode_toLeBytes.append
      ((prefixCode_toList hashBytes).append prefixCode_varint)))))
  apply hcode.comp (f := fun fields : BlobFields => (fields.majorVersion, fields.minorVersion,
    fields.timestamp, fields.prevHash, fields.nonce, fields.root, fields.count))
  intro fields fields' h
  cases fields
  cases fields'
  cases h
  rfl

/-! ## The blob -/

section
variable (cnFastHash : List U8 → Hash)

/-- The hashes of a block's transactions, the root over them, and the fields that go into the
blob. -/
structure HasFields (block : RpcBlockRecord) (txHashes : List Hash) (fields : BlobFields) :
    Prop where
  majorVersion : fields.majorVersion = block.majorVersion
  minorVersion : fields.minorVersion = block.minorVersion
  timestamp : fields.timestamp = block.timestamp
  prevHash : (decodeHex hashBytes block.prevHash).Returns fields.prevHash
  nonce : fields.nonce = block.nonce
  decoded : (decodeTxHashes block).Returns txHashes
  root : treeHash cnFastHash txHashes = some fields.root
  count : fields.count = BitVec.ofNat 64 txHashes.length

lemma mapM_returns_length {α : Type} {f : α → Outcome Hash} {values : List α} {hashes : List Hash}
    (h : (values.mapM f).Returns hashes) : hashes.length = values.length := by
  induction values generalizing hashes with
  | nil =>
    rw [List.mapM_nil] at h
    rw [Outcome.Returns.eq h (rfl : Outcome.Returns (pure []) [])]
    rfl
  | cons value values ih =>
    rw [List.mapM_cons] at h
    obtain ⟨hash, -, h⟩ := h.of_bind
    obtain ⟨rest, hrest, h⟩ := h.of_bind
    rw [Outcome.Returns.eq h (rfl : Outcome.Returns (pure _) _), List.length_cons, ih hrest]
    rfl

lemma length_of_decodeTxHashes {block : RpcBlockRecord} {txHashes : List Hash}
    (h : (decodeTxHashes block).Returns txHashes) :
    txHashes.length = block.txHashes.length + 1 := by
  unfold decodeTxHashes at h
  obtain ⟨first, -, h⟩ := h.of_bind
  obtain ⟨rest, hrest, h⟩ := h.of_bind
  rw [Outcome.Returns.eq h (rfl : Outcome.Returns (pure _) _), List.length_cons,
    mapM_returns_length hrest]

/-- The blob is the code of the fields. -/
lemma hashingBlob_returns {block : RpcBlockRecord} {blob : List U8}
    (h : (hashingBlob cnFastHash block).Returns blob) :
    ∃ txHashes fields, HasFields cnFastHash block txHashes fields ∧
      blob = BlobFields.encode fields := by
  unfold hashingBlob at h
  obtain ⟨txHashes, htxHashes, h⟩ := h.of_bind
  dsimp only at h
  obtain ⟨prevHash, hprevHash, h⟩ := h.of_bind
  obtain ⟨root, hroot, h⟩ := h.of_bind
  refine ⟨txHashes, ⟨block.majorVersion, block.minorVersion, block.timestamp, prevHash,
    block.nonce, root, BitVec.ofNat 64 txHashes.length⟩, ⟨rfl, rfl, rfl, hprevHash, rfl, htxHashes,
    Outcome.expect_returns.mp hroot, rfl⟩, ?_⟩
  rw [Outcome.Returns.eq h (rfl : Outcome.Returns (pure _) _)]
  simp only [appendVarint_eq, List.nil_append, List.append_assoc, BlobFields.encode]

/-- What an `Ok` blob determines, and the code of the integers that it rests on. -/
theorem hashingBlob_determines :
    (∀ (value : U64) (output : List U8), appendVarint value output = output ++ varint value ∧
      IsVarint value.toNat (varint value) ∧ 1 ≤ (varint value).length ∧
      (varint value).length ≤ 10) ∧
    PrefixCode varint ∧
    ∀ (block block' : RpcBlockRecord) (blob : List U8),
      (hashingBlob cnFastHash block).Returns blob → (hashingBlob cnFastHash block').Returns blob →
      block.majorVersion = block'.majorVersion ∧ block.minorVersion = block'.minorVersion ∧
      block.timestamp = block'.timestamp ∧
      (∃ prevHash, (decodeHex hashBytes block.prevHash).Returns prevHash ∧
        (decodeHex hashBytes block'.prevHash).Returns prevHash) ∧
      block.nonce = block'.nonce ∧
      (∃ txHashes txHashes' root, (decodeTxHashes block).Returns txHashes ∧
        (decodeTxHashes block').Returns txHashes' ∧
        treeHash cnFastHash txHashes = some root ∧ treeHash cnFastHash txHashes' = some root) ∧
      block.txHashes.length + 1 = block'.txHashes.length + 1 := by
  refine ⟨?_, prefixCode_varint, ?_⟩
  · intro value output
    have hdigits := isVarint_varint value
    refine ⟨appendVarint_eq value output, hdigits, ?_, length_varint_le value⟩
    obtain ⟨init, last, hbytes, -⟩ := hdigits
    rw [hbytes, List.length_append]
    exact Nat.le_add_left _ _
  · intro block block' blob h h'
    obtain ⟨txHashes, fields, hfields, hblob⟩ := hashingBlob_returns cnFastHash h
    obtain ⟨txHashes', fields', hfields', hblob'⟩ := hashingBlob_returns cnFastHash h'
    -- a blob is the encoding of one record of fields only
    have hsame : fields = fields' := prefixCode_encode.injective (hblob.symm.trans hblob')
    subst hsame
    refine ⟨hfields.majorVersion.symm.trans hfields'.majorVersion,
      hfields.minorVersion.symm.trans hfields'.minorVersion,
      hfields.timestamp.symm.trans hfields'.timestamp,
      ⟨_, hfields.prevHash, hfields'.prevHash⟩, hfields.nonce.symm.trans hfields'.nonce,
      ⟨txHashes, txHashes', _, hfields.decoded, hfields'.decoded, hfields.root, hfields'.root⟩,
      ?_⟩
    -- the count is taken modulo `2^64`, which no vector reaches
    have hcount := congrArg BitVec.toNat (hfields.count.symm.trans hfields'.count)
    have hlength := length_of_decodeTxHashes hfields.decoded
    have hlength' := length_of_decodeTxHashes hfields'.decoded
    have hlt := block.txHashes_lt
    have hlt' := block'.txHashes_lt
    rw [BitVec.toNat_ofNat, BitVec.toNat_ofNat, Nat.mod_eq_of_lt (by omega),
      Nat.mod_eq_of_lt (by omega)] at hcount
    omega

end

/-- A record of two transactions. -/
def blockOf (minerTxHash : Hash) : RpcBlockRecord where
  majorVersion := 16
  minorVersion := 16
  timestamp := 300
  prevHash := encodeHex (Vector.replicate hashBytes 0).toList
  nonce := 7
  minerTxHash := encodeHex minerTxHash.toList
  txHashes := [encodeHex (Vector.replicate hashBytes 0).toList]
  txHashes_lt := by decide

lemma hashingBlob_blockOf (minerTxHash root : Hash) :
    (hashingBlob (fun _ => root) (blockOf minerTxHash)).Returns
      (BlobFields.encode ⟨16, 16, 300, Vector.replicate hashBytes 0, 7, root, 2⟩) := by
  have hdecoded : (decodeTxHashes (blockOf minerTxHash)).Returns
      [minerTxHash, Vector.replicate hashBytes 0] := by
    unfold decodeTxHashes blockOf
    rw [(decodeHex_encodeHex minerTxHash).bind, List.mapM_cons, List.mapM_nil, bind_assoc,
      (decodeHex_encodeHex _).bind]
    rfl
  have hprevHash : (decodeHex hashBytes (blockOf minerTxHash).prevHash).Returns
      (Vector.replicate hashBytes 0) := decodeHex_encodeHex _
  have hroot : (Outcome.expect (treeHash (fun _ => root)
      [minerTxHash, Vector.replicate hashBytes 0])).Returns root := rfl
  unfold hashingBlob
  rw [hdecoded.bind]
  dsimp only
  rw [hprevHash.bind, hroot.bind]
  simp only [appendVarint_eq, List.nil_append, List.append_assoc]
  rfl

/-- Of a constant hash function two records share a blob: they differ in a transaction, not in
the root. -/
theorem hashingBlob_determines_blockOf :
    ∃ prevHash,
      (decodeHex hashBytes (blockOf (Vector.replicate hashBytes 0)).prevHash).Returns prevHash ∧
      (decodeHex hashBytes (blockOf (Vector.replicate hashBytes 1)).prevHash).Returns prevHash :=
  ((hashingBlob_determines fun _ => Vector.replicate hashBytes 0).2.2 _ _ _
    (hashingBlob_blockOf _ _) (hashingBlob_blockOf _ _)).2.2.2.1

end RandomXSp1.Audit
