import RandomXSp1.Common

/-!
# Strings and their bytes

A UTF-8 string is the list of its characters. Its bytes are their encodings; offsets count bytes,
and a slice exists where both of its ends lie between characters.
-/

namespace RandomXSp1

abbrev Str := List Char

/-- `as_bytes`. -/
def utf8 (value : Str) : List U8 :=
  value.flatMap fun c => (String.utf8EncodeChar c).map UInt8.toBitVec

/-- `len`, in bytes. -/
def byteLen (value : Str) : ℕ := (value.map Char.utf8Size).sum

/-- The characters after the first `offset` bytes, if a character ends there. -/
def dropBytes : Str → ℕ → Option Str
  | value, 0 => some value
  | [], _ + 1 => none
  | c :: value, offset + 1 =>
    if c.utf8Size ≤ offset + 1 then dropBytes value (offset + 1 - c.utf8Size) else none

/-- The characters of the first `length` bytes, if a character ends there. -/
def takeBytes : Str → ℕ → Option Str
  | _, 0 => some []
  | [], _ + 1 => none
  | c :: value, length + 1 =>
    if c.utf8Size ≤ length + 1 then (takeBytes value (length + 1 - c.utf8Size)).map (c :: ·)
    else none

/-- `&value[start..start + length]`. -/
def slice (value : Str) (start length : ℕ) : Option Str :=
  (dropBytes value start).bind fun rest => takeBytes rest length

/-- `str::from_utf8`. -/
def fromUtf8 (bytes : List U8) : Option Str :=
  (String.fromUTF8? (bytes.map UInt8.ofBitVec).toByteArray).map String.toList

/-! ## UTF-8 -/

def encodeChar (c : Char) : List U8 := (String.utf8EncodeChar c).map UInt8.toBitVec

lemma utf8_cons (c : Char) (value : Str) : utf8 (c :: value) = encodeChar c ++ utf8 value :=
  List.flatMap_cons

lemma utf8_append (value value' : Str) : utf8 (value ++ value') = utf8 value ++ utf8 value' :=
  List.flatMap_append

lemma length_encodeChar (c : Char) : (encodeChar c).length = c.utf8Size := by
  unfold encodeChar
  rw [List.length_map, String.length_utf8EncodeChar]

lemma length_utf8 (value : Str) : (utf8 value).length = byteLen value := by
  induction value with
  | nil => rfl
  | cons c value ih =>
    rw [utf8_cons, List.length_append, ih, length_encodeChar]
    rfl

lemma map_ofBitVec_map_toBitVec (bytes : List UInt8) :
    (bytes.map UInt8.toBitVec).map UInt8.ofBitVec = bytes := by
  rw [List.map_map]
  exact List.map_id bytes

lemma map_toBitVec_map_ofBitVec (bytes : List U8) :
    (bytes.map UInt8.ofBitVec).map UInt8.toBitVec = bytes := by
  rw [List.map_map]
  exact List.map_id bytes

/-- No encoding of a character begins another one. -/
lemma eq_of_encodeChar_append {c d : Char} {l m : List U8}
    (h : encodeChar c ++ l = encodeChar d ++ m) : c = d := by
  have hdecode (e : Char) (k : List U8) : ByteArray.utf8DecodeChar?
      ((encodeChar e ++ k).map UInt8.ofBitVec).toByteArray 0 = some e := by
    unfold encodeChar
    rw [List.map_append, map_ofBitVec_map_toBitVec, List.toByteArray_append]
    exact ByteArray.utf8DecodeChar?_utf8EncodeChar_append
  have hc := hdecode c l
  rw [h, hdecode d m] at hc
  exact (Option.some.inj hc).symm

lemma utf8_eq_nil {value : Str} (h : utf8 value = []) : value = [] := by
  cases value with
  | nil => rfl
  | cons c value =>
    have hlength := congrArg List.length h
    rw [utf8_cons, List.length_append, length_encodeChar] at hlength
    have hpos := c.utf8Size_pos
    simp at hlength
    omega

lemma toByteArray_utf8 (value : Str) :
    ((utf8 value).map UInt8.ofBitVec).toByteArray = (String.ofList value).toByteArray := by
  unfold utf8
  rw [List.map_flatMap]
  simp only [map_ofBitVec_map_toBitVec]
  rfl

lemma fromUtf8_utf8 (value : Str) : fromUtf8 (utf8 value) = some value := by
  have hvalid := (String.ofList value).isValidUTF8
  unfold fromUtf8 String.fromUTF8?
  rw [toByteArray_utf8, dif_pos hvalid]
  exact congrArg some String.toList_ofList

lemma utf8_of_fromUtf8 {bytes : List U8} {value : Str} (h : fromUtf8 bytes = some value) :
    utf8 value = bytes := by
  unfold fromUtf8 String.fromUTF8? at h
  split at h
  · rename_i hvalid
    have hvalue : (String.ofByteArray _ hvalid).toList = value := Option.some.inj h
    have hbytes : (String.ofList value).toByteArray = (bytes.map UInt8.ofBitVec).toByteArray := by
      rw [← hvalue, String.ofList_toList]
    rw [← toByteArray_utf8] at hbytes
    have hlist := congrArg (fun b => b.data.toList) hbytes
    simp only [List.data_toByteArray] at hlist
    have hmap := congrArg (List.map UInt8.toBitVec) hlist
    rwa [map_toBitVec_map_ofBitVec, map_toBitVec_map_ofBitVec] at hmap
  · cases h

lemma encodeChar_of_ascii {c : Char} (h : c.utf8Size = 1) :
    c.toNat < 128 ∧ encodeChar c = [BitVec.ofNat 8 c.toNat] := by
  have hle : c.val ≤ 127 := Char.utf8Size_eq_one_iff.mp h
  refine ⟨Nat.lt_succ_of_le (UInt32.le_iff_toNat_le.mp hle), ?_⟩
  unfold encodeChar
  rw [String.utf8EncodeChar_eq_singleton h]
  rfl

/-- The bytes of a longer character are no digits and no signs. -/
lemma encodeChar_of_two {c : Char} (h : c.utf8Size = 2) :
    ∃ x y, encodeChar c = [x, y] ∧ 0x80 ≤ x := by
  unfold encodeChar
  rw [String.utf8EncodeChar_eq_cons_cons h]
  refine ⟨_, _, rfl, ?_⟩
  have hle (x : U8) : 0x80 ≤ x ||| 0xc0 := by
    revert x
    decide
  exact hle _

/-! ## Slices -/

lemma byteLen_append (value value' : Str) :
    byteLen (value ++ value') = byteLen value + byteLen value' := by
  unfold byteLen
  rw [List.map_append, List.sum_append]

lemma byteLen_cons (c : Char) (value : Str) : byteLen (c :: value) = c.utf8Size + byteLen value :=
  List.sum_cons

lemma dropBytes_append (front rest : Str) : dropBytes (front ++ rest) (byteLen front) = some rest := by
  induction front with
  | nil =>
    show dropBytes rest 0 = some rest
    unfold dropBytes
    rfl
  | cons c front ih =>
    obtain ⟨n, hn⟩ := Nat.exists_eq_succ_of_ne_zero c.utf8Size_pos.ne'
    rw [byteLen_cons, List.cons_append, hn, Nat.succ_add]
    unfold dropBytes
    rw [if_pos (by omega)]
    rw [show n + byteLen front + 1 - c.utf8Size = byteLen front by omega]
    exact ih

lemma takeBytes_append (front rest : Str) :
    takeBytes (front ++ rest) (byteLen front) = some front := by
  induction front with
  | nil =>
    show takeBytes rest 0 = some []
    unfold takeBytes
    rfl
  | cons c front ih =>
    obtain ⟨n, hn⟩ := Nat.exists_eq_succ_of_ne_zero c.utf8Size_pos.ne'
    rw [byteLen_cons, List.cons_append, hn, Nat.succ_add]
    unfold takeBytes
    rw [if_pos (by omega)]
    rw [show n + byteLen front + 1 - c.utf8Size = byteLen front by omega, ih]
    rfl

lemma exists_of_takeBytes {value front : Str} {length : ℕ} (h : takeBytes value length = some front) :
    ∃ rest, value = front ++ rest ∧ byteLen front = length := by
  induction value generalizing length front with
  | nil =>
    cases length with
    | zero =>
      cases h
      exact ⟨[], rfl, rfl⟩
    | succ length => cases h
  | cons c value ih =>
    cases length with
    | zero =>
      cases h
      exact ⟨c :: value, rfl, rfl⟩
    | succ length =>
      unfold takeBytes at h
      split at h
      · obtain ⟨front', hfront, rfl⟩ := Option.map_eq_some_iff.mp h
        obtain ⟨rest, rfl, hlength⟩ := ih hfront
        refine ⟨rest, rfl, ?_⟩
        rw [byteLen_cons, hlength]
        omega
      · cases h

/-- Two bytes are one character or two. -/
lemma of_byteLen_eq_two {value : Str} (h : byteLen value = 2) :
    (∃ c, value = [c] ∧ c.utf8Size = 2) ∨
      ∃ a b, value = [a, b] ∧ a.utf8Size = 1 ∧ b.utf8Size = 1 := by
  cases value with
  | nil => cases h
  | cons a value =>
    have ha := a.utf8Size_pos
    rw [byteLen_cons] at h
    cases value with
    | nil =>
      left
      exact ⟨a, rfl, h⟩
    | cons b value =>
      have hb := b.utf8Size_pos
      rw [byteLen_cons] at h
      cases value with
      | nil =>
        right
        have hnil : byteLen [] = 0 := rfl
        exact ⟨a, b, rfl, by omega, by omega⟩
      | cons c value =>
        have hc := c.utf8Size_pos
        rw [byteLen_cons] at h
        omega

/-- A pair of bytes is UTF-8 if it ends at a character of the string that it begins. -/
lemma fromUtf8_pair {value : Str} {x y : U8} {rest : List U8} (h : utf8 value = x :: y :: rest) :
    fromUtf8 [x, y] = takeBytes value 2 := by
  -- UTF-8 is a prefix code, so a string whose bytes begin a string's bytes begins the string
  have hsplit {front value : Str} {l : List U8} (hvalue : utf8 value = utf8 front ++ l) :
      ∃ rest, value = front ++ rest := by
    induction front generalizing value with
    | nil => exact ⟨value, rfl⟩
    | cons c front ih =>
      rw [utf8_cons, List.append_assoc] at hvalue
      cases value with
      | nil =>
        have hlength := congrArg List.length hvalue
        have hpos := c.utf8Size_pos
        rw [List.length_append, length_encodeChar] at hlength
        have hnil : (utf8 []).length = 0 := rfl
        omega
      | cons d value =>
        rw [utf8_cons] at hvalue
        obtain rfl := eq_of_encodeChar_append hvalue
        obtain ⟨rest, rfl⟩ := ih (List.append_cancel_left hvalue)
        exact ⟨rest, rfl⟩
  cases htake : takeBytes value 2 with
  | some front =>
    obtain ⟨rest', rfl, hlength⟩ := exists_of_takeBytes htake
    rw [utf8_append] at h
    rw [← length_utf8] at hlength
    have hfront : utf8 front = [x, y] := by
      have htwo := congrArg (List.take 2) h
      rwa [List.take_left' hlength] at htwo
    rw [← hfront, fromUtf8_utf8]
  | none =>
    cases hfrom : fromUtf8 [x, y] with
    | none => rfl
    | some front =>
      have hfront := utf8_of_fromUtf8 hfrom
      have hvalue : utf8 value = utf8 front ++ rest := by
        rw [hfront]
        exact h
      obtain ⟨rest', rfl⟩ := hsplit hvalue
      have hlength : byteLen front = 2 := by
        rw [← length_utf8, hfront]
        rfl
      rw [← hlength, takeBytes_append] at htake
      cases htake

end RandomXSp1
