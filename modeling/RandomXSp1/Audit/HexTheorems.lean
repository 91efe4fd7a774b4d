import RandomXSp1.Audit.Monero

/-!
# The hexadecimal decoders

Both decoders read the string in pairs of bytes, and leave a pair to a parser of integers. It
rejects everything but two hexadecimal digits or a plus sign and one digit. So the decoders accept
signs, and a pair that cuts a character panics; on all other strings they decide the grammar of
hexadecimal digits.
-/

namespace RandomXSp1.Audit

/-! ## Digits -/

def isHexDigit (c : Char) : Bool :=
  ('0' ≤ c && c ≤ '9') || ('a' ≤ c && c ≤ 'f') || ('A' ≤ c && c ≤ 'F')

lemma toDigit_spec : ∀ n < 128, (toDigit (BitVec.ofNat 8 n)).isSome = isHexDigit (Char.ofNat n) ∧
    ∀ d ∈ toDigit (BitVec.ofNat 8 n), d < 16 ∧ hexDigit d = (Char.ofNat n).toLower := by
  decide

lemma toDigit_of_le {x : U8} (h : 0x80 ≤ x) : toDigit x = none := by
  revert x
  decide

lemma toDigit_lt {x : U8} {d : ℕ} (h : toDigit x = some d) : d < 16 := by
  have hall : ∀ x : U8, ∀ d ∈ toDigit x, d < 16 := by decide
  exact hall x d h

/-- A digit after one that was read. -/
lemma parseDigits_digit {result : ℕ} (h : result < 16) (y : U8) :
    parseDigits result [y] = (toDigit y).map (result * 16 + ·) := by
  unfold parseDigits
  rw [checkedMul_eq (by omega), Option.bind_eq_bind, Option.bind_some]
  cases hy : toDigit y with
  | none => rfl
  | some e =>
    have he := toDigit_lt hy
    rw [Option.bind_some, checkedAdd_eq (by omega)]
    rfl

lemma parseDigits_two (x y : U8) :
    parseDigits 0 [x, y] = (toDigit x).bind fun d => (toDigit y).map (d * 16 + ·) := by
  unfold parseDigits
  rw [checkedMul_eq (by norm_num), Option.bind_eq_bind, Option.bind_some]
  cases hx : toDigit x with
  | none => rfl
  | some d =>
    have hd := toDigit_lt hx
    rw [Option.bind_some, checkedAdd_eq (by omega), Option.bind_some, Option.bind_some]
    rw [zero_mul, zero_add]
    exact parseDigits_digit hd y

/-- A string of two bytes: a sign and a digit, or two digits. -/
lemma u8FromStrRadix16_of_two {src : Str} {x y : U8} (h : utf8 src = [x, y]) :
    u8FromStrRadix16 src = (if x = 0x2b then toDigit y
      else (toDigit x).bind fun d => (toDigit y).map (d * 16 + ·)).map (BitVec.ofNat 8) := by
  unfold u8FromStrRadix16
  rw [h]
  dsimp only
  rw [if_neg (by simp)]
  split
  · rw [parseDigits_digit (by norm_num)]
    simp
  · rw [parseDigits_two]

/-! ## Pairs -/

/-- What the integer parser accepts: two digits, or a plus sign and a digit. -/
def IsAccepted (pair : Char × Char) : Prop :=
  (isHexDigit pair.1 = true ∨ pair.1 = '+') ∧ isHexDigit pair.2 = true

instance (pair : Char × Char) : Decidable (IsAccepted pair) := by
  unfold IsAccepted
  infer_instance

def flat (pairs : List (Char × Char)) : Str := pairs.flatMap fun pair => [pair.1, pair.2]

lemma flat_cons (pair : Char × Char) (pairs : List (Char × Char)) :
    flat (pair :: pairs) = pair.1 :: pair.2 :: flat pairs := rfl

lemma utf8Size_of_accepted {c : Char} (h : isHexDigit c = true ∨ c = '+') : c.utf8Size = 1 := by
  rw [Char.utf8Size_eq_one_iff]
  have hle : c ≤ 'f' := by
    unfold isHexDigit at h
    simp only [Bool.or_eq_true, Bool.and_eq_true, decide_eq_true_eq] at h
    obtain ((⟨-, h⟩ | ⟨-, h⟩) | ⟨-, h⟩) | h := h
    · exact h.trans (by decide)
    · exact h
    · exact h.trans (by decide)
    · rw [h]
      decide
  exact UInt32.le_trans hle (by decide)

lemma isSome_toDigit {c : Char} (h : c.utf8Size = 1) :
    (toDigit (BitVec.ofNat 8 c.toNat)).isSome = isHexDigit c := by
  rw [(toDigit_spec c.toNat (encodeChar_of_ascii h).1).1, Char.ofNat_toNat]

lemma hexDigit_toDigit {c : Char} (h : c.utf8Size = 1) {d : ℕ}
    (hd : toDigit (BitVec.ofNat 8 c.toNat) = some d) : d < 16 ∧ hexDigit d = c.toLower := by
  have hspec := (toDigit_spec c.toNat (encodeChar_of_ascii h).1).2 d hd
  rwa [Char.ofNat_toNat] at hspec

lemma eq_plus_iff {c : Char} (h : c.utf8Size = 1) : BitVec.ofNat 8 c.toNat = 0x2b ↔ c = '+' := by
  have hlt := (encodeChar_of_ascii h).1
  rw [← BitVec.toNat_inj, BitVec.toNat_ofNat, Nat.mod_eq_of_lt (by omega)]
  constructor
  · intro heq
    have hc := congrArg Char.ofNat heq
    rwa [Char.ofNat_toNat] at hc
  · intro heq
    rw [heq]
    rfl

lemma utf8_pair {a b : Char} (ha : a.utf8Size = 1) (hb : b.utf8Size = 1) :
    utf8 [a, b] = [BitVec.ofNat 8 a.toNat, BitVec.ofNat 8 b.toNat] := by
  rw [utf8_cons, utf8_cons, (encodeChar_of_ascii ha).2, (encodeChar_of_ascii hb).2]
  rfl

/-- A byte is written with two digits below 16. -/
lemma encodeHex_ofNat {d e : ℕ} (hd : d < 16) (he : e < 16) :
    encodeHex [BitVec.ofNat 8 (d * 16 + e)] = [hexDigit d, hexDigit e] := by
  have hbyte : (BitVec.ofNat 8 (d * 16 + e)).toNat = d * 16 + e := by
    rw [BitVec.toNat_ofNat, Nat.mod_eq_of_lt (by omega)]
  unfold encodeHex
  rw [List.flatMap_singleton, hbyte, show (d * 16 + e) / 16 = d by omega,
    show (d * 16 + e) % 16 = e by omega]

/-- An accepted pair is parsed, to a byte that is written without the sign. -/
lemma exists_of_accepted {pair : Char × Char} (h : IsAccepted pair) :
    ∃ byte, u8FromStrRadix16 [pair.1, pair.2] = some byte ∧
      encodeHex [byte] = [if pair.1 = '+' then '0' else pair.1.toLower, pair.2.toLower] := by
  obtain ⟨a, b⟩ := pair
  obtain ⟨ha, hb⟩ := h
  have hsizeA := utf8Size_of_accepted ha
  have hsizeB := utf8Size_of_accepted (Or.inl hb)
  obtain ⟨e, he⟩ := Option.isSome_iff_exists.mp ((isSome_toDigit hsizeB).trans hb)
  obtain ⟨helt, hlower⟩ := hexDigit_toDigit hsizeB he
  rw [u8FromStrRadix16_of_two (utf8_pair hsizeA hsizeB), he]
  by_cases hplus : a = '+'
  · rw [if_pos ((eq_plus_iff hsizeA).mpr hplus), if_pos hplus]
    refine ⟨_, rfl, ?_⟩
    have hhex := encodeHex_ofNat (show 0 < 16 by norm_num) helt
    rw [zero_mul, zero_add] at hhex
    rw [hhex, ← hlower]
    rfl
  · rw [if_neg (fun heq => hplus ((eq_plus_iff hsizeA).mp heq)), if_neg hplus]
    have ha := ha.resolve_right hplus
    obtain ⟨d, hd⟩ := Option.isSome_iff_exists.mp ((isSome_toDigit hsizeA).trans ha)
    obtain ⟨hdlt, hlower'⟩ := hexDigit_toDigit hsizeA hd
    rw [hd]
    refine ⟨_, rfl, ?_⟩
    rw [encodeHex_ofNat hdlt helt, hlower, hlower']

lemma eq_none_of_not_accepted {a b : Char} (ha : a.utf8Size = 1) (hb : b.utf8Size = 1)
    (h : ¬IsAccepted (a, b)) : u8FromStrRadix16 [a, b] = none := by
  rw [u8FromStrRadix16_of_two (utf8_pair ha hb)]
  cases hy : toDigit (BitVec.ofNat 8 b.toNat) with
  | none => 
    split
    · rfl
    · cases toDigit (BitVec.ofNat 8 a.toNat) <;> rfl
  | some e =>
    have hb' : isHexDigit b = true := by
      rw [← isSome_toDigit hb, hy]
      rfl
    have hplus : a ≠ '+' := fun heq => h ⟨Or.inr heq, hb'⟩
    rw [if_neg (fun heq => hplus ((eq_plus_iff ha).mp heq))]
    have ha' : ¬isHexDigit a = true := fun hhex => h ⟨Or.inl hhex, hb'⟩
    rw [← isSome_toDigit ha, Option.not_isSome_iff_eq_none] at ha'
    rw [ha']
    rfl

lemma eq_none_of_two {c : Char} (h : c.utf8Size = 2) : u8FromStrRadix16 [c] = none := by
  obtain ⟨x, y, hbytes, hx⟩ := encodeChar_of_two h
  have hutf8 : utf8 [c] = [x, y] := by
    rw [utf8_cons, hbytes]
    rfl
  rw [u8FromStrRadix16_of_two hutf8, toDigit_of_le hx]
  split
  · rename_i hplus
    rw [hplus] at hx
    exact absurd hx (by decide)
  · rfl

lemma parseByte_returns {value pair : Str} {index : ℕ} {byte : U8}
    (h : u8FromStrRadix16 pair = some byte) : (parseByte value index pair).Returns byte := by
  unfold parseByte
  rw [h]
  rfl

lemma parseByte_fails {value pair : Str} {index : ℕ} (h : u8FromStrRadix16 pair = none) :
    (parseByte value index pair).Fails := by
  unfold parseByte
  rw [h]
  exact ⟨_, rfl⟩

/-! ## Reading pairs -/

def byteOf (pair : Char × Char) : U8 := (u8FromStrRadix16 [pair.1, pair.2]).getD 0

lemma parse_accepted {pair : Char × Char} (h : IsAccepted pair) :
    u8FromStrRadix16 [pair.1, pair.2] = some (byteOf pair) := by
  obtain ⟨byte, hbyte, -⟩ := exists_of_accepted h
  unfold byteOf
  rw [hbyte]
  rfl

lemma byteLen_pair {pair : Char × Char} (h : IsAccepted pair) : byteLen [pair.1, pair.2] = 2 := by
  rw [byteLen_cons, byteLen_cons, utf8Size_of_accepted h.1, utf8Size_of_accepted (Or.inl h.2)]
  rfl

lemma byteLen_flat {pairs : List (Char × Char)} (h : ∀ pair ∈ pairs, IsAccepted pair) :
    byteLen (flat pairs) = 2 * pairs.length := by
  induction pairs with
  | nil => rfl
  | cons pair pairs ih =>
    have hpair := byteLen_pair (h pair List.mem_cons_self)
    have hrest := ih fun q hq => h q (List.mem_cons_of_mem _ hq)
    have hsplit : flat (pair :: pairs) = [pair.1, pair.2] ++ flat pairs := rfl
    rw [hsplit, byteLen_append, hpair, hrest, List.length_cons]
    omega

/-- Whether a run of accepted pairs ends here. -/
def Ends (rest : Str) : Prop := ∀ a b rest', rest = a :: b :: rest' → ¬IsAccepted (a, b)

/-- A string is a run of accepted pairs and a rest where the run ends. -/
lemma exists_pairs (value : Str) :
    ∃ pairs rest, value = flat pairs ++ rest ∧ (∀ pair ∈ pairs, IsAccepted pair) ∧ Ends rest := by
  induction hn : value.length using Nat.strong_induction_on generalizing value with
  | h n ih =>
    have hstop (hends : Ends value) : ∃ pairs rest, value = flat pairs ++ rest ∧
        (∀ pair ∈ pairs, IsAccepted pair) ∧ Ends rest :=
      ⟨[], value, rfl, fun pair hpair => absurd hpair List.not_mem_nil, hends⟩
    match value with
    | [] => exact hstop fun a b rest' h => by cases h
    | [c] => exact hstop fun a b rest' h => by cases h
    | a :: b :: value =>
      by_cases haccepted : IsAccepted (a, b)
      · obtain ⟨pairs, rest, hvalue, hpairs, hends⟩ :=
          ih value.length (by rw [← hn]; simp) value rfl
        refine ⟨(a, b) :: pairs, rest, by rw [hvalue]; rfl, ?_, hends⟩
        intro pair hpair
        cases List.mem_cons.mp hpair with
        | inl heq =>
          rw [heq]
          exact haccepted
        | inr hmem => exact hpairs pair hmem
      · apply hstop
        intro a' b' rest' h
        cases h
        exact haccepted

/-- What stands at the end of a run of accepted pairs is not parsed. -/
lemma parse_none {rest front : Str} (hends : Ends rest) (h : takeBytes rest 2 = some front) :
    u8FromStrRadix16 front = none := by
  obtain ⟨rest', rfl, hlength⟩ := exists_of_takeBytes h
  obtain ⟨c, rfl, hc⟩ | ⟨a, b, rfl, ha, hb⟩ := of_byteLen_eq_two hlength
  · exact eq_none_of_two hc
  · exact eq_none_of_not_accepted ha hb (hends a b rest' rfl)

/-- The reading of the pairs of a string, from what its prefix of accepted pairs leaves: all of
the bytes, or an error, or a panic where two bytes do not end at a character. -/
structure Reads {α : Type} (x : Outcome α) (toBytes : α → List U8) (pairs : List (Char × Char))
    (rest : Str) : Prop where
  returns : rest = [] → ∃ a, x.Returns a ∧ toBytes a = pairs.map byteOf
  fails : rest ≠ [] → ∀ front, takeBytes rest 2 = some front → x.Fails
  panics : rest ≠ [] → takeBytes rest 2 = none → x.Panics

lemma two_le_byteLen {rest : Str} (hrest : rest ≠ []) (heven : byteLen rest % 2 = 0) :
    2 ≤ byteLen rest := by
  cases rest with
  | nil => exact absurd rfl hrest
  | cons c rest =>
    have hpos := c.utf8Size_pos
    rw [byteLen_cons] at heven ⊢
    omega

lemma decodePairs_reads (value : Str) {pairs : List (Char × Char)} {rest : Str}
    (hpairs : ∀ pair ∈ pairs, IsAccepted pair) (hends : Ends rest) (heven : byteLen rest % 2 = 0)
    (index : ℕ) : Reads (decodePairs value index (utf8 (flat pairs ++ rest))) id pairs rest := by
  induction pairs generalizing index with
  | nil =>
    show Reads (decodePairs value index (utf8 rest)) id [] rest
    by_cases hrest : rest = []
    · -- the string ends with its pairs
      refine ⟨fun _ => ?_, fun h => absurd hrest h, fun h => absurd hrest h⟩
      rw [hrest]
      exact ⟨[], rfl, rfl⟩
    · -- two more bytes, which are no accepted pair or split a character
      obtain ⟨x, y, bytes, hbytes⟩ : ∃ x y bytes, utf8 rest = x :: y :: bytes := by
        have hlength := two_le_byteLen hrest heven
        rw [← length_utf8] at hlength
        match utf8 rest, hlength with
        | x :: y :: bytes, _ => exact ⟨x, y, bytes, rfl⟩
      rw [hbytes]
      unfold decodePairs
      rw [fromUtf8_pair hbytes]
      refine ⟨fun h => absurd h hrest, ?_, ?_⟩
      · intro _ front hfront
        rw [hfront]
        exact (parseByte_fails (parse_none hends hfront)).bind
      · intro _ hnone
        rw [hnone]
        exact rfl
  | cons pair pairs ih =>
    have haccepted := hpairs pair List.mem_cons_self
    have hrest := ih (fun q hq => hpairs q (List.mem_cons_of_mem _ hq)) (index + 1)
    have hsizeA := utf8Size_of_accepted haccepted.1
    have hsizeB := utf8Size_of_accepted (Or.inl haccepted.2)
    have hsplit : utf8 (flat (pair :: pairs) ++ rest)
        = BitVec.ofNat 8 pair.1.toNat :: BitVec.ofNat 8 pair.2.toNat
          :: utf8 (flat pairs ++ rest) := by
      show utf8 ([pair.1, pair.2] ++ (flat pairs ++ rest)) = _
      rw [utf8_append, utf8_pair hsizeA hsizeB]
      rfl
    have hfrom : fromUtf8 [BitVec.ofNat 8 pair.1.toNat, BitVec.ofNat 8 pair.2.toNat]
        = some [pair.1, pair.2] := by
      rw [← utf8_pair hsizeA hsizeB, fromUtf8_utf8]
    rw [hsplit]
    unfold decodePairs
    rw [hfrom]
    have hbyte : (parseByte value index [pair.1, pair.2]).Returns (byteOf pair) :=
      parseByte_returns (parse_accepted haccepted)
    -- the pair is read, so the outcome is that of the pairs behind it
    have hstep : (do
        let pair ← Outcome.expect (some [pair.1, pair.2])
        let byte ← parseByte value index pair
        return byte :: (← decodePairs value (index + 1) (utf8 (flat pairs ++ rest))))
          = decodePairs value (index + 1) (utf8 (flat pairs ++ rest)) >>= fun bytes =>
            pure (byteOf pair :: bytes) := hbyte.bind
    rw [hstep]
    refine ⟨?_, ?_, ?_⟩
    · intro hnil
      obtain ⟨bytes, hreturns, hbytes⟩ := hrest.returns hnil
      rw [hreturns.bind]
      exact ⟨_, rfl, congrArg (byteOf pair :: ·) hbytes⟩
    · intro hne front hfront
      exact (hrest.fails hne front hfront).bind
    · intro hne hnone
      exact (hrest.panics hne hnone).bind

lemma accepted_append {done pairs : List (Char × Char)} (hdone : ∀ pair ∈ done, IsAccepted pair)
    (hpairs : ∀ pair ∈ pairs, IsAccepted pair) : ∀ pair ∈ done ++ pairs, IsAccepted pair := by
  intro pair hpair
  cases List.mem_append.mp hpair with
  | inl h => exact hdone pair h
  | inr h => exact hpairs pair h

/-- The slice after the pairs that were read. -/
lemma slice_flat {done : List (Char × Char)} (hdone : ∀ pair ∈ done, IsAccepted pair)
    (pairs : List (Char × Char)) (rest : Str) :
    slice (flat (done ++ pairs) ++ rest) (done.length * 2) 2 = takeBytes (flat pairs ++ rest) 2 := by
  have hflat : flat (done ++ pairs) = flat done ++ flat pairs := List.flatMap_append
  unfold slice
  rw [hflat, List.append_assoc, Nat.mul_comm, ← byteLen_flat hdone, dropBytes_append,
    Option.bind_some]

lemma decodeHexLoop_reads {N : ℕ} {pairs done : List (Char × Char)} {rest : Str}
    (hdone : ∀ pair ∈ done, IsAccepted pair) (hpairs : ∀ pair ∈ pairs, IsAccepted pair)
    (hends : Ends rest) (hlength : byteLen (flat (done ++ pairs) ++ rest) = N * 2)
    {bytes : Vector U8 N} (hbytes : ∀ i < done.length, bytes[i]? = (done.map byteOf)[i]?) :
    Reads ((List.range' done.length (N - done.length)).foldlM
        (decodeHexStep (flat (done ++ pairs) ++ rest)) bytes)
      Vector.toList (done ++ pairs) rest := by
  induction pairs generalizing done bytes with
  | nil =>
    have hslice : slice (flat (done ++ []) ++ rest) (done.length * 2) 2 = takeBytes rest 2 :=
      slice_flat hdone [] rest
    have hcount : 2 * done.length + byteLen rest = N * 2 := by
      rwa [byteLen_append, List.append_nil, byteLen_flat hdone] at hlength
    by_cases hrest : rest = []
    · refine ⟨fun _ => ?_, fun h => absurd hrest h, fun h => absurd hrest h⟩
      have hN : N = done.length := by
        rw [hrest] at hcount
        have hnil : byteLen [] = 0 := rfl
        omega
      rw [show N - done.length = 0 by omega]
      refine ⟨bytes, rfl, ?_⟩
      rw [List.append_nil]
      apply List.ext_getElem?
      intro i
      rw [Vector.getElem?_toList]
      by_cases hi : i < done.length
      · exact hbytes i hi
      · rw [Vector.getElem?_eq_none (by omega), List.getElem?_eq_none (by rw [List.length_map]; omega)]
    · -- the loop stops at this index, where the slice begins `rest`
      have htwo : 2 ≤ byteLen rest := by
        apply two_le_byteLen hrest
        omega
      have hsucc : N - done.length = (N - done.length - 1) + 1 := by omega
      rw [hsucc, List.range'_succ, List.foldlM_cons]
      unfold decodeHexStep
      dsimp only
      rw [hslice]
      refine ⟨fun h => absurd h hrest, ?_, ?_⟩
      · intro _ front hfront
        rw [hfront]
        exact ((parseByte_fails (parse_none hends hfront)).bind).bind
      · intro _ hnone
        rw [hnone]
        exact rfl
  | cons pair pairs ih =>
    have haccepted := hpairs pair List.mem_cons_self
    have hcount : 2 * (done.length + (pairs.length + 1)) + byteLen rest = N * 2 := by
      rwa [byteLen_append, byteLen_flat (accepted_append hdone hpairs), List.length_append,
        List.length_cons] at hlength
    have hsucc : N - done.length = (N - (done ++ [pair]).length) + 1 := by
      rw [List.length_append, List.length_singleton]
      omega
    -- the pair moves to those that are done, and the string stays the same
    have hmove : done ++ pair :: pairs = (done ++ [pair]) ++ pairs := by
      rw [List.append_assoc]
      rfl
    have hslice : slice (flat (done ++ pair :: pairs) ++ rest) (done.length * 2) 2
        = some [pair.1, pair.2] := by
      rw [slice_flat hdone, ← byteLen_pair haccepted]
      exact takeBytes_append [pair.1, pair.2] (flat pairs ++ rest)
    rw [hmove] at hslice hlength ⊢
    have hbyte : (parseByte (flat ((done ++ [pair]) ++ pairs) ++ rest) done.length
        [pair.1, pair.2]).Returns (byteOf pair) := parseByte_returns (parse_accepted haccepted)
    have hstep : (decodeHexStep (flat ((done ++ [pair]) ++ pairs) ++ rest) bytes
        done.length).Returns (bytes.setIfInBounds done.length (byteOf pair)) := by
      unfold decodeHexStep
      dsimp only
      rw [hslice]
      exact congrArg ExceptT.run hbyte.bind
    rw [hsucc, List.range'_succ, List.foldlM_cons, hstep.bind]
    have hdone' : ∀ q ∈ done ++ [pair], IsAccepted q := by
      apply accepted_append hdone
      intro q hq
      rw [List.mem_singleton.mp hq]
      exact haccepted
    -- the step writes at its own index only
    have hbytes' : ∀ i < (done ++ [pair]).length,
        (bytes.setIfInBounds done.length (byteOf pair))[i]?
          = ((done ++ [pair]).map byteOf)[i]? := by
      intro i hi
      rw [List.length_append, List.length_singleton] at hi
      rw [List.map_append]
      by_cases hlast : i = done.length
      · rw [hlast, Vector.getElem?_setIfInBounds_self_of_lt (by omega),
          List.getElem?_append_right (by simp)]
        simp
      · rw [Vector.getElem?_setIfInBounds_ne (Ne.symm hlast), hbytes i (by omega),
          List.getElem?_append_left (by rw [List.length_map]; omega)]
    have hnext := ih hdone' (fun q hq => hpairs q (List.mem_cons_of_mem _ hq)) hlength hbytes'
    rw [List.length_append, List.length_singleton] at hnext ⊢
    exact hnext

/-! ## The grammar -/

/-- A decoder accepts the well-formed strings and no others, does not panic, and what it returns
is written as the string in lower case. -/
structure DecodesHex {α : Type} (x : Outcome α) (toBytes : α → List U8) (wellFormed : Prop)
    (value : Str) : Prop where
  returns_iff : (∃ a, x.Returns a) ↔ wellFormed
  not_panics : ¬x.Panics
  encode : ∀ a, x.Returns a → encodeHex (toBytes a) = value.map Char.toLower

/-- After a run of pairs that the integer parser accepts, the next two bytes end at a character,
and a run of all the string has no plus sign. -/
def Clean (value : Str) : Prop :=
  ∀ pairs rest, value = flat pairs ++ rest → (∀ pair ∈ pairs, IsAccepted pair) →
    (rest = [] → ∀ pair ∈ pairs, pair.1 ≠ '+') ∧ (rest ≠ [] → (takeBytes rest 2).isSome = true)

/-- It is enough to look at where the run ends. -/
lemma clean_iff {pairs : List (Char × Char)} {rest : Str} (hpairs : ∀ pair ∈ pairs, IsAccepted pair)
    (hends : Ends rest) : Clean (flat pairs ++ rest) ↔
      (rest = [] → ∀ pair ∈ pairs, pair.1 ≠ '+') ∧
        (rest ≠ [] → (takeBytes rest 2).isSome = true) := by
  constructor
  · intro h
    exact h pairs rest rfl hpairs
  · intro h front tail heq hfront
    -- a run from the start is a part of the longest one
    obtain ⟨more, hmore, rfl, rfl⟩ : ∃ more, (∀ pair ∈ more, IsAccepted pair) ∧
        pairs = front ++ more ∧ tail = flat more ++ rest := by
      clear h
      induction front generalizing pairs with
      | nil => exact ⟨pairs, hpairs, rfl, heq.symm⟩
      | cons pair front ih =>
        have haccepted := hfront pair List.mem_cons_self
        cases pairs with
        | nil => exact absurd haccepted (hends _ _ _ heq)
        | cons pair' pairs =>
          obtain ⟨hfst, hrest⟩ := List.cons.inj heq
          obtain ⟨hsnd, htail⟩ := List.cons.inj hrest
          obtain ⟨more, hmore, rfl, hmoreRest⟩ :=
            ih (fun q hq => hpairs q (List.mem_cons_of_mem _ hq))
              htail fun q hq => hfront q (List.mem_cons_of_mem _ hq)
          rw [Prod.ext hfst hsnd]
          exact ⟨more, hmore, rfl, hmoreRest⟩
    cases more with
    | nil =>
      rw [List.append_nil] at h
      exact h
    | cons pair more =>
      refine ⟨fun hnil => (List.cons_ne_nil _ _ hnil).elim, fun _ => ?_⟩
      have htake := takeBytes_append [pair.1, pair.2] (flat more ++ rest)
      rw [byteLen_pair (hmore pair List.mem_cons_self)] at htake
      show (takeBytes ([pair.1, pair.2] ++ (flat more ++ rest)) 2).isSome = true
      rw [htake]
      rfl

/-- Pairs without a sign are written as they were read, in lower case. -/
lemma encodeHex_map_byteOf {pairs : List (Char × Char)} (hpairs : ∀ pair ∈ pairs, IsAccepted pair)
    (hplus : ∀ pair ∈ pairs, pair.1 ≠ '+') :
    encodeHex (pairs.map byteOf) = (flat pairs).map Char.toLower := by
  induction pairs with
  | nil => rfl
  | cons pair pairs ih =>
    have hrest := ih (fun q hq => hpairs q (List.mem_cons_of_mem _ hq))
      fun q hq => hplus q (List.mem_cons_of_mem _ hq)
    obtain ⟨byte, hbyte, hencode⟩ := exists_of_accepted (hpairs pair List.mem_cons_self)
    rw [if_neg (hplus pair List.mem_cons_self)] at hencode
    have hof : byteOf pair = byte := by
      unfold byteOf
      rw [hbyte]
      rfl
    show encodeHex ([byteOf pair] ++ pairs.map byteOf) = _
    rw [show encodeHex ([byteOf pair] ++ pairs.map byteOf)
      = encodeHex [byteOf pair] ++ encodeHex (pairs.map byteOf) from List.flatMap_append, hof,
      hencode, hrest]
    rfl

/-- What reads the pairs of a string decodes it if and only if the string is clean. -/
lemma decodesHex_iff {α : Type} {x : Outcome α} {toBytes : α → List U8} {wellFormed : Prop}
    {pairs : List (Char × Char)} {rest : Str} (hreads : Reads x toBytes pairs rest)
    (hpairs : ∀ pair ∈ pairs, IsAccepted pair) (hends : Ends rest)
    (heven : byteLen rest % 2 = 0)
    (hwell : wellFormed ↔ ∀ c ∈ flat pairs ++ rest, isHexDigit c = true) :
    DecodesHex x toBytes wellFormed (flat pairs ++ rest) ↔ Clean (flat pairs ++ rest) := by
  rw [clean_iff hpairs hends]
  by_cases hrest : rest = []
  · -- the whole string is pairs: only a plus sign tells acceptance from well-formedness
    obtain ⟨a, hreturns, hbytes⟩ := hreads.returns hrest
    subst hrest
    rw [List.append_nil] at hwell ⊢
    constructor
    · intro h
      refine ⟨fun _ pair hpair hplus => ?_, fun hne => absurd rfl hne⟩
      have hdigit := hwell.mp (h.returns_iff.mp ⟨a, hreturns⟩) pair.1
        (List.mem_flatMap.mpr ⟨pair, hpair, List.mem_cons_self⟩)
      rw [hplus] at hdigit
      cases hdigit
    · intro h
      have hplus := h.1 rfl
      refine ⟨⟨fun _ => hwell.mpr ?_, fun _ => ⟨a, hreturns⟩⟩, hreturns.not_panics, ?_⟩
      · intro c hc
        obtain ⟨pair, hpair, hmem⟩ := List.mem_flatMap.mp hc
        obtain ⟨hfst, hsnd⟩ := hpairs pair hpair
        cases List.mem_cons.mp hmem with
        | inl heq =>
          rw [heq]
          exact hfst.resolve_right (hplus pair hpair)
        | inr hmem =>
          rw [List.mem_singleton.mp hmem]
          exact hsnd
      · intro b hb
        rw [hb.eq hreturns, hbytes]
        exact encodeHex_map_byteOf hpairs hplus
  · -- something is left over, so the string is not well-formed: an error is right, a panic is not
    have hnot : ¬wellFormed := by
      intro h
      have hdigits := hwell.mp h
      have hdigit (c : Char) (hc : c ∈ rest) := hdigits c (List.mem_append_right _ hc)
      match rest with
      | [] => exact hrest rfl
      | [c] =>
        have hone := utf8Size_of_accepted (Or.inl (hdigit c List.mem_cons_self))
        rw [byteLen_cons, hone] at heven
        cases heven
      | a :: b :: rest =>
        exact hends a b rest rfl ⟨Or.inl (hdigit a List.mem_cons_self),
          hdigit b (List.mem_cons_of_mem _ List.mem_cons_self)⟩
    cases htake : takeBytes rest 2 with
    | none =>
      constructor
      · intro h
        exact absurd (hreads.panics hrest htake) h.not_panics
      · intro h
        cases h.2 hrest
    | some front =>
      have hfails := hreads.fails hrest front htake
      constructor
      · intro _
        exact ⟨fun hnil => absurd hnil hrest, fun _ => rfl⟩
      · intro _
        refine ⟨⟨fun ⟨a, ha⟩ => absurd ha (hfails.not_returns a), fun h => absurd h hnot⟩,
          hfails.not_panics, fun a ha => absurd ha (hfails.not_returns a)⟩

lemma byteLen_of_digits {value : Str} (h : ∀ c ∈ value, isHexDigit c = true) :
    byteLen value = value.length := by
  induction value with
  | nil => rfl
  | cons c value ih =>
    rw [byteLen_cons, ih fun d hd => h d (List.mem_cons_of_mem _ hd),
      utf8Size_of_accepted (Or.inl (h c List.mem_cons_self)), List.length_cons, Nat.add_comm]

/-- Of a string with the wrong length there is nothing to decode. -/
lemma decodesHex_of_fails {α : Type} {x : Outcome α} (toBytes : α → List U8) {wellFormed : Prop}
    {value : Str} (h : x.Fails) (hnot : ¬wellFormed) : DecodesHex x toBytes wellFormed value :=
  ⟨⟨fun ⟨a, ha⟩ => absurd ha (h.not_returns a), fun hwell => absurd hwell hnot⟩, h.not_panics,
    fun a ha => absurd ha (h.not_returns a)⟩

lemma decodeHex_iff (N : ℕ) (value : Str) :
    DecodesHex (decodeHex N value) Vector.toList
        (value.length = 2 * N ∧ ∀ c ∈ value, isHexDigit c = true) value
      ↔ (byteLen value ≠ N * 2 ∨ Clean value) := by
  unfold decodeHex
  by_cases hlength : byteLen value = N * 2
  · obtain ⟨pairs, rest, rfl, hpairs, hends⟩ := exists_pairs value
    have heven : byteLen rest % 2 = 0 := by
      have hsum := hlength
      rw [byteLen_append, byteLen_flat hpairs] at hsum
      omega
    rw [if_neg (not_not.mpr hlength), List.range_eq_range']
    have hreads : Reads ((List.range' 0 N).foldlM (decodeHexStep (flat pairs ++ rest))
        (Vector.replicate N 0)) Vector.toList pairs rest :=
      decodeHexLoop_reads (N := N) (fun pair hpair => absurd hpair List.not_mem_nil) hpairs hends
        hlength fun i hi => absurd hi (Nat.not_lt_zero i)
    rw [decodesHex_iff hreads hpairs hends heven]
    · exact ⟨Or.inr, fun h => h.resolve_left (not_not.mpr hlength)⟩
    · constructor
      · exact And.right
      · intro h
        refine ⟨?_, h⟩
        rw [← byteLen_of_digits h, hlength, Nat.mul_comm]
  · rw [if_pos hlength]
    refine ⟨fun _ => Or.inl hlength, fun _ => decodesHex_of_fails _ ⟨_, rfl⟩ ?_⟩
    intro hwell
    rw [byteLen_of_digits hwell.2, hwell.1, Nat.mul_comm] at hlength
    exact hlength rfl

lemma decodeHexVec_iff (value : Str) :
    DecodesHex (decodeHexVec value) id
        (value.length % 2 = 0 ∧ ∀ c ∈ value, isHexDigit c = true) value
      ↔ (byteLen value % 2 ≠ 0 ∨ Clean value) := by
  unfold decodeHexVec
  by_cases hlength : byteLen value % 2 = 0
  · obtain ⟨pairs, rest, rfl, hpairs, hends⟩ := exists_pairs value
    have heven : byteLen rest % 2 = 0 := by
      have hsum := hlength
      rw [byteLen_append, byteLen_flat hpairs] at hsum
      omega
    rw [if_neg (not_not.mpr hlength), decodesHex_iff (decodePairs_reads _ hpairs hends heven 0)
      hpairs hends heven]
    · exact ⟨Or.inr, fun h => h.resolve_left (not_not.mpr hlength)⟩
    · constructor
      · exact And.right
      · intro h
        refine ⟨?_, h⟩
        rw [← byteLen_of_digits h, hlength]
  · rw [if_pos hlength]
    refine ⟨fun _ => Or.inl hlength, fun _ => decodesHex_of_fails _ ⟨_, rfl⟩ ?_⟩
    intro hwell
    rw [byteLen_of_digits hwell.2] at hlength
    exact hlength hwell.1

/-! ## Round trips -/

lemma hexDigit_spec : ∀ d < 16, isHexDigit (hexDigit d) = true ∧ hexDigit d ≠ '+' ∧
    (hexDigit d).toLower = hexDigit d ∧ ∀ e < 16, hexDigit d = hexDigit e → d = e := by
  decide

lemma encodeHex_cons (byte : U8) (bytes : List U8) : encodeHex (byte :: bytes)
    = hexDigit (byte.toNat / 16) :: hexDigit (byte.toNat % 16) :: encodeHex bytes := rfl

lemma encodeHex_injective : Function.Injective encodeHex := by
  intro bytes
  induction bytes with
  | nil =>
    intro bytes' h
    cases bytes' with
    | nil => rfl
    | cons byte' bytes' => cases h
  | cons byte bytes ih =>
    intro bytes' h
    cases bytes' with
    | nil => cases h
    | cons byte' bytes' =>
      have hlt := byte.isLt
      have hlt' := byte'.isLt
      rw [encodeHex_cons, encodeHex_cons] at h
      obtain ⟨hhigh, hrest⟩ := List.cons.inj h
      obtain ⟨hlow, hrest⟩ := List.cons.inj hrest
      have hhigh := (hexDigit_spec _ (by omega)).2.2.2 _ (by omega) hhigh
      have hlow := (hexDigit_spec _ (by omega)).2.2.2 _ (by omega) hlow
      rw [ih hrest, BitVec.eq_of_toNat_eq (show byte.toNat = byte'.toNat by omega)]

/-- What is written is clean, of even length and in lower case. -/
lemma encodeHex_spec (bytes : List U8) :
    Clean (encodeHex bytes) ∧ (encodeHex bytes).length = 2 * bytes.length ∧
      (∀ c ∈ encodeHex bytes, isHexDigit c = true) ∧
      (encodeHex bytes).map Char.toLower = encodeHex bytes := by
  let pairs : List (Char × Char) :=
    bytes.map fun byte => (hexDigit (byte.toNat / 16), hexDigit (byte.toNat % 16))
  have hflat : encodeHex bytes = flat pairs ++ [] := by
    unfold pairs flat encodeHex
    rw [List.append_nil, List.flatMap_map]
  -- a character that is written is the digit of a nibble
  have hdigits : ∀ c ∈ encodeHex bytes,
      isHexDigit c = true ∧ c ≠ '+' ∧ c.toLower = c := by
    intro c hc
    obtain ⟨byte, -, hmem⟩ := List.mem_flatMap.mp hc
    have hlt := byte.isLt
    cases List.mem_cons.mp hmem with
    | inl heq =>
      have hspec := hexDigit_spec (byte.toNat / 16) (by omega)
      rw [heq]
      exact ⟨hspec.1, hspec.2.1, hspec.2.2.1⟩
    | inr hmem =>
      have hspec := hexDigit_spec (byte.toNat % 16) (by omega)
      rw [List.mem_singleton.mp hmem]
      exact ⟨hspec.1, hspec.2.1, hspec.2.2.1⟩
  have hmem (pair : Char × Char) (hpair : pair ∈ pairs) :
      pair.1 ∈ encodeHex bytes ∧ pair.2 ∈ encodeHex bytes := by
    rw [hflat, List.append_nil]
    exact ⟨List.mem_flatMap.mpr ⟨pair, hpair, List.mem_cons_self⟩,
      List.mem_flatMap.mpr ⟨pair, hpair, List.mem_cons_of_mem _ List.mem_cons_self⟩⟩
  refine ⟨?_, ?_, fun c hc => (hdigits c hc).1, ?_⟩
  · rw [hflat, clean_iff]
    · exact ⟨fun _ pair hpair => (hdigits _ (hmem pair hpair).1).2.1, fun h => absurd rfl h⟩
    · intro pair hpair
      exact ⟨Or.inl (hdigits _ (hmem pair hpair).1).1, (hdigits _ (hmem pair hpair).2).1⟩
    · intro a b rest h
      cases h
  · induction bytes with
    | nil => rfl
    | cons byte bytes ih =>
      unfold encodeHex
      simp
      ring
  · conv_rhs => rw [← List.map_id (encodeHex bytes)]
    apply List.map_congr_left
    intro c hc
    exact (hdigits c hc).2.2

lemma decodeHex_encodeHex {N : ℕ} (bytes : Vector U8 N) :
    (decodeHex N (encodeHex bytes.toList)).Returns bytes := by
  obtain ⟨hclean, hlength, hdigits, hlower⟩ := encodeHex_spec bytes.toList
  have hdecodes := (decodeHex_iff N _).mpr (Or.inr hclean)
  rw [Vector.length_toList] at hlength
  obtain ⟨bytes', hreturns⟩ := hdecodes.returns_iff.mpr ⟨hlength, hdigits⟩
  have hencode := hdecodes.encode bytes' hreturns
  rw [hlower] at hencode
  rwa [Vector.toList_inj.mp (encodeHex_injective hencode)] at hreturns

lemma decodeHexVec_encodeHex (bytes : List U8) : (decodeHexVec (encodeHex bytes)).Returns bytes := by
  obtain ⟨hclean, hlength, hdigits, hlower⟩ := encodeHex_spec bytes
  have hdecodes := (decodeHexVec_iff _).mpr (Or.inr hclean)
  obtain ⟨bytes', hreturns⟩ := hdecodes.returns_iff.mpr ⟨by omega, hdigits⟩
  have hencode := hdecodes.encode bytes' hreturns
  rw [hlower] at hencode
  have heq : bytes' = bytes := encodeHex_injective hencode
  rwa [heq] at hreturns

/-- Both decoders accept the strings of hexadecimal digits of the right length, and reject the
others, exactly on the clean strings; decoding undoes encoding. -/
theorem decodeHex_correct_iff (N : ℕ) (value : Str) :
    (DecodesHex (decodeHex N value) Vector.toList
        (value.length = 2 * N ∧ ∀ c ∈ value, isHexDigit c = true) value
      ↔ (byteLen value ≠ N * 2 ∨ Clean value)) ∧
    (DecodesHex (decodeHexVec value) id
        (value.length % 2 = 0 ∧ ∀ c ∈ value, isHexDigit c = true) value
      ↔ (byteLen value % 2 ≠ 0 ∨ Clean value)) ∧
    (∀ bytes : Vector U8 N, (decodeHex N (encodeHex bytes.toList)).Returns bytes) ∧
    ∀ bytes, (decodeHexVec (encodeHex bytes)).Returns bytes :=
  ⟨decodeHex_iff N value, decodeHexVec_iff value, decodeHex_encodeHex, decodeHexVec_encodeHex⟩

/-- A plus sign is accepted: `+f` decodes to the byte 15. -/
theorem decodeHex_accepts_sign :
    ¬∀ N value, DecodesHex (decodeHex N value) Vector.toList
      (value.length = 2 * N ∧ ∀ c ∈ value, isHexDigit c = true) value := by
  intro h
  have hreturns : (decodeHex 1 ['+', 'f']).Returns #v[15] := rfl
  have hwell := (h 1 ['+', 'f']).returns_iff.mp ⟨_, hreturns⟩
  exact absurd (hwell.2 '+' List.mem_cons_self) (by decide)

end RandomXSp1.Audit
