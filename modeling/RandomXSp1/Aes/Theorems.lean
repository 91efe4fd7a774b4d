import RandomXSp1.Aes
import RandomXSp1.Aes.Fips197

/-!
# The table-driven AES rounds

The tables hold the multiples of the substituted byte that the columns are mixed with, so a round
through the tables is a round of FIPS 197.
-/

namespace RandomXSp1.Aes

open Gf256 Fips197

/-! ## Tables -/

/-- The entries of the tables and the doubling, on all bytes. -/
lemma tables_spec : ∀ b,
    lookup sbox b = subByte b ∧ lookup invSbox (lookup sbox b) = b ∧ xtime b = mul 2 b := by
  decide +kernel

/-- The table is the substitution of the standard, and the second table its inverse. -/
lemma lookup_sbox (b : U8) : lookup sbox b = subByte b := (tables_spec b).1

lemma lookup_invSbox_sbox (b : U8) : lookup invSbox (lookup sbox b) = b := (tables_spec b).2.1

lemma lookup_invSbox (b : U8) : lookup invSbox b = invSubByte b := by
  rw [← subByte_invSubByte b, ← lookup_sbox, lookup_invSbox_sbox, lookup_sbox, subByte_invSubByte]

/-- `xtime` multiplies by the polynomial `x`. -/
lemma xtime_eq (b : U8) : xtime b = mul 2 b := (tables_spec b).2.2

/-! ## Bytes -/

/-- The bytes of a column-major block are the entries of the state matrix. -/
lemma byte_eq_ofBlock (state : U128) (r c : Fin 4) : byte state (c * 4 + r) = ofBlock state r c := by
  apply BitVec.eq_of_getLsbD_eq
  intro k hk
  unfold byte ofBlock
  rw [BitVec.getLsbD_setWidth, BitVec.getLsbD_ushiftRight, BitVec.getLsbD_extractLsb', mul_comm 4]

/-- A byte of a word. -/
def wordByte (w : U32) (r : Fin 4) : U8 := w.extractLsb' (8 * r) 8

/-- Bytes of words are taken out of exclusive ors and of words put together. -/
lemma wordByte_xor (v w : U32) (r : Fin 4) :
    wordByte (v ^^^ w) r = wordByte v r ^^^ wordByte w r := by
  unfold wordByte
  rw [BitVec.extractLsb'_xor]

lemma wordByte_word (b0 b1 b2 b3 : U8) (r : Fin 4) :
    wordByte (word b0 b1 b2 b3) r = ![b0, b1, b2, b3] r := by
  apply BitVec.eq_of_getLsbD_eq
  intro k hk
  have hbyte (b : U8) (i : ℕ) : b.getLsbD (8 + i) = false := BitVec.getLsbD_of_ge b (8 + i) (by omega)
  unfold wordByte word
  simp only [BitVec.getLsbD_extractLsb', BitVec.getLsbD_or, BitVec.getLsbD_shiftLeft,
    BitVec.getLsbD_setWidth, hk, decide_true, Bool.true_and]
  fin_cases r
  all_goals
    simp only [Fin.zero_eta, Fin.mk_one, Fin.reduceFinMk, Fin.isValue, Matrix.cons_val]
    grind

lemma getLsbD_ofColumns (out : ℕ → U32) (c : Fin 4) {k : ℕ} (hk : k < 32) :
    (ofColumns out).getLsbD (32 * c + k) = (out c).getLsbD k := by
  have hword (w : U32) (i : ℕ) : w.getLsbD (32 + i) = false := BitVec.getLsbD_of_ge w (32 + i) (by omega)
  unfold ofColumns
  simp only [BitVec.getLsbD_or, BitVec.getLsbD_shiftLeft, BitVec.getLsbD_setWidth]
  fin_cases c
  all_goals
    dsimp only
    grind

/-- The columns of a state, as words. -/
lemma ofColumns_eq_toBlock {out : ℕ → U32} {s : Fips197.State}
    (h : ∀ r c : Fin 4, wordByte (out c) r = s r c) : ofColumns out = toBlock s := by
  apply BitVec.eq_of_getLsbD_eq
  intro k hk
  have hcolumn : k / 32 < 4 := by omega
  have hrow : k / 8 % 4 < 4 := by omega
  have hbit : k % 8 < 8 := by omega
  have hblock := getLsbD_toBlock s ⟨k / 8 % 4, hrow⟩ ⟨k / 32, hcolumn⟩ hbit
  have hcolumns := getLsbD_ofColumns out ⟨k / 32, hcolumn⟩ (k := 8 * (k / 8 % 4) + k % 8) (by omega)
  have hbyte : ((out (k / 32)).getLsbD (8 * (k / 8 % 4) + k % 8))
      = (wordByte (out (k / 32)) ⟨k / 8 % 4, hrow⟩).getLsbD (k % 8) := by
    unfold wordByte
    rw [BitVec.getLsbD_extractLsb', decide_eq_true hbit, Bool.true_and]
  have hindex : 32 * (k / 32) + (8 * (k / 8 % 4) + k % 8) = k := by omega
  have hindex' : 8 * (4 * (k / 32) + k / 8 % 4) + k % 8 = k := by omega
  dsimp only at hblock hcolumns
  rw [hindex] at hcolumns
  rw [hindex'] at hblock
  rw [hcolumns, hbyte, hblock, ← h]

/-! ## Rounds -/

section
variable (b0 b1 b2 b3 : U8) (r : Fin 4)

lemma wordByte_encTable :
    wordByte (encTable.t0 b0 ^^^ encTable.t1 b1 ^^^ encTable.t2 b2 ^^^ encTable.t3 b3) r
      = circulant mixCoeffs ![subByte b0, subByte b1, subByte b2, subByte b3] r := by
  unfold encTable circulant xor4 mixCoeffs
  simp only [wordByte_xor, wordByte_word, lookup_sbox, xtime_eq]
  fin_cases r
  all_goals
    simp only [Fin.zero_eta, Fin.mk_one, Fin.reduceFinMk, Fin.isValue, Fin.reduceSub, sub_self,
      sub_zero, Matrix.cons_val, three_mul, one_mul]

lemma wordByte_decTable :
    wordByte (decTable.t0 b0 ^^^ decTable.t1 b1 ^^^ decTable.t2 b2 ^^^ decTable.t3 b3) r
      = circulant invMixCoeffs ![invSubByte b0, invSubByte b1, invSubByte b2, invSubByte b3] r := by
  unfold decTable circulant xor4 invMixCoeffs
  simp only [wordByte_xor, wordByte_word, lookup_invSbox, xtime_eq]
  fin_cases r
  all_goals
    simp only [Fin.zero_eta, Fin.mk_one, Fin.reduceFinMk, Fin.isValue, Fin.reduceSub, sub_self,
      sub_zero, Matrix.cons_val, nine_mul, eleven_mul, thirteen_mul, fourteen_mul]

end

/-- Four table lookups for each column make a round of the standard, key last. -/
lemma aesenc_eq (state key : U128) : aesenc state key = toBlock (encrypt (ofBlock state)) ^^^ key := by
  unfold aesenc
  dsimp only
  rw [ofColumns_eq_toBlock (s := encrypt (ofBlock state))]
  intro r c
  have hbyte (i : Fin 4) : byte state ((c + i) % 4 * 4 + i) = ofBlock state i (c + i) := by
    rw [← byte_eq_ofBlock, Fin.val_add]
  have hcolumn : byte state (c % 4 * 4) = ofBlock state 0 (c + 0) := hbyte 0
  rw [wordByte_encTable, hcolumn]
  show _ = circulant mixCoeffs (fun j => subByte (ofBlock state j (c + j))) r
  congr 1
  funext j
  fin_cases j
  · rfl
  · exact congrArg subByte (hbyte 1)
  · exact congrArg subByte (hbyte 2)
  · exact congrArg subByte (hbyte 3)

/-- The same for the inverse round. -/
lemma aesdec_eq (state key : U128) : aesdec state key = toBlock (decrypt (ofBlock state)) ^^^ key := by
  unfold aesdec
  dsimp only
  rw [ofColumns_eq_toBlock (s := decrypt (ofBlock state))]
  intro r c
  have hbyte (i j : Fin 4) (h : c + j = c - i) :
      byte state ((c + j) % 4 * 4 + i) = ofBlock state i (c - i) := by
    rw [← byte_eq_ofBlock, ← h, Fin.val_add]
  have hcolumn : byte state (c % 4 * 4) = ofBlock state 0 (c - 0) := hbyte 0 0 (by grind)
  rw [wordByte_decTable, hcolumn]
  show _ = circulant invMixCoeffs (fun j => invSubByte (ofBlock state j (c - j))) r
  congr 1
  funext j
  fin_cases j
  · rfl
  · exact congrArg invSubByte (hbyte 1 3 (by grind))
  · exact congrArg invSubByte (hbyte 2 2 (by grind))
  · exact congrArg invSubByte (hbyte 3 1 (by grind))

/-- For every state and key the table-driven rounds are those of FIPS 197, over the S-box that is
the inverse in the field followed by the affine map, and a key gives two bijections. -/
theorem aesenc_aesdec_eq_fips197 :
    (inverse 0 = 0 ∧ ∀ b, mul b (inverse b) = if b = 0 then 0 else 1)
      ∧ (∀ b, lookup sbox b = affine (inverse b))
      ∧ (Function.LeftInverse (lookup invSbox) (lookup sbox)
        ∧ Function.RightInverse (lookup invSbox) (lookup sbox)
        ∧ ∀ b, lookup invSbox b = invSubByte b)
      ∧ (∀ state key, aesenc state key
        = toBlock (mixColumns (shiftRows (subBytes (ofBlock state)))) ^^^ key)
      ∧ (∀ state key, aesdec state key
        = toBlock (invMixColumns (invSubBytes (invShiftRows (ofBlock state)))) ^^^ key)
      ∧ ∀ key, Function.Bijective (fun state => aesenc state key)
        ∧ Function.Bijective (fun state => aesdec state key) := by
  refine ⟨⟨inverse_zero, mul_inverse⟩, lookup_sbox, ⟨lookup_invSbox_sbox, ?_, lookup_invSbox⟩,
    aesenc_eq, aesdec_eq, ?_⟩
  · intro b
    rw [lookup_invSbox, lookup_sbox, subByte_invSubByte]
  · intro key
    simp only [aesenc_eq, aesdec_eq]
    exact ⟨bijective_keyed encrypt_bijective key, bijective_keyed decrypt_bijective key⟩

end RandomXSp1.Aes
