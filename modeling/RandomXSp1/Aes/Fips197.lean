import RandomXSp1.Gf256

/-!
# The AES round of FIPS 197

The four transformations of the state and their inverses, byte by byte over the field of 256
elements. Every one of them is a bijection.
-/

namespace RandomXSp1.Fips197

open Gf256

/-! ## Transformations -/

/-- The byte in a row and a column of the state. -/
abbrev State := Fin 4 → Fin 4 → BitVec 8

/-- Bit `i` of the result is the sum of the bits `i`, `i + 4`, `i + 5`, `i + 6` and `i + 7` modulo 8
of the argument and of bit `i` of `0x63`. -/
def affine (b : BitVec 8) : BitVec 8 :=
  b ^^^ b.rotateRight 4 ^^^ b.rotateRight 5 ^^^ b.rotateRight 6 ^^^ b.rotateRight 7 ^^^ 0x63

/-- The S-box: the inverse in the field, then the affine map. -/
def subByte (b : BitVec 8) : BitVec 8 := affine (inverse b)

/-- The inverse of the S-box. -/
noncomputable def invSubByte : BitVec 8 → BitVec 8 := Function.invFun subByte

/-- The four steps of a round, on the state matrix. -/
def subBytes (s : State) : State := fun r c => subByte (s r c)

def shiftRows (s : State) : State := fun r c => s r (c + r)

def mixCoeffs : Fin 4 → BitVec 8 := ![2, 3, 1, 1]

def mixColumns (s : State) : State := fun r c => circulant mixCoeffs (fun j => s j c) r

/-- Their inverses. -/
noncomputable def invSubBytes (s : State) : State := fun r c => invSubByte (s r c)

def invShiftRows (s : State) : State := fun r c => s r (c - r)

def invMixCoeffs : Fin 4 → BitVec 8 := ![14, 11, 13, 9]

def invMixColumns (s : State) : State := fun r c => circulant invMixCoeffs (fun j => s j c) r

/-! ## Inverses -/

lemma invShiftRows_shiftRows (s : State) : invShiftRows (shiftRows s) = s := by
  funext r c
  show s r (c - r + r) = s r c
  rw [sub_add_cancel]

lemma shiftRows_invShiftRows (s : State) : shiftRows (invShiftRows s) = s := by
  funext r c
  show s r (c + r - r) = s r c
  rw [add_sub_cancel_right]

/-- The bits of the multiples of a byte cancel in pairs. -/
lemma inverseEntry_invMix_mix (i : Fin 4) : InverseEntry invMixCoeffs mixCoeffs i := by
  intro x
  fin_cases i
  on_goal 1 =>
    show mul 14 (mul 2 x) ^^^ mul 11 (mul 1 x) ^^^ mul 13 (mul 1 x) ^^^ mul 9 (mul 3 x) = x
  on_goal 2 =>
    show mul 14 (mul 3 x) ^^^ mul 11 (mul 2 x) ^^^ mul 13 (mul 1 x) ^^^ mul 9 (mul 1 x) = 0
  on_goal 3 =>
    show mul 14 (mul 1 x) ^^^ mul 11 (mul 3 x) ^^^ mul 13 (mul 2 x) ^^^ mul 9 (mul 1 x) = 0
  on_goal 4 =>
    show mul 14 (mul 1 x) ^^^ mul 11 (mul 1 x) ^^^ mul 13 (mul 3 x) ^^^ mul 9 (mul 2 x) = 0
  all_goals
    simp only [nine_mul, eleven_mul, thirteen_mul, fourteen_mul, three_mul, one_mul, mul_xor]
    ext k hk
    simp only [BitVec.getElem_xor]
    grind

/-- The coefficients of the two circulant matrices. -/
lemma inverseEntry_mix_invMix (i : Fin 4) : InverseEntry mixCoeffs invMixCoeffs i := by
  intro x
  fin_cases i
  on_goal 1 =>
    show mul 2 (mul 14 x) ^^^ mul 3 (mul 9 x) ^^^ mul 1 (mul 13 x) ^^^ mul 1 (mul 11 x) = x
  on_goal 2 =>
    show mul 2 (mul 11 x) ^^^ mul 3 (mul 14 x) ^^^ mul 1 (mul 9 x) ^^^ mul 1 (mul 13 x) = 0
  on_goal 3 =>
    show mul 2 (mul 13 x) ^^^ mul 3 (mul 11 x) ^^^ mul 1 (mul 14 x) ^^^ mul 1 (mul 9 x) = 0
  on_goal 4 =>
    show mul 2 (mul 9 x) ^^^ mul 3 (mul 13 x) ^^^ mul 1 (mul 11 x) ^^^ mul 1 (mul 14 x) = 0
  all_goals
    simp only [nine_mul, eleven_mul, thirteen_mul, fourteen_mul, three_mul, one_mul, mul_xor]
    ext k hk
    simp only [BitVec.getElem_xor]
    grind

/-- So the matrices are inverse to each other. -/
lemma invMixColumns_mixColumns (s : State) : invMixColumns (mixColumns s) = s := by
  funext r c
  exact congrFun (circulant_circulant inverseEntry_invMix_mix fun j => s j c) r

lemma mixColumns_invMixColumns (s : State) : mixColumns (invMixColumns s) = s := by
  funext r c
  exact congrFun (circulant_circulant inverseEntry_mix_invMix fun j => s j c) r

/-! ## Bijections -/

/-- The inverse of the affine map. -/
def unaffine (b : BitVec 8) : BitVec 8 :=
  b.rotateRight 2 ^^^ b.rotateRight 5 ^^^ b.rotateRight 7 ^^^ 0x05

/-- The inverse of the inverse is the element. -/
lemma inverse_unaffine_subByte : ∀ b, inverse (unaffine (subByte b)) = b := by decide +kernel

/-- The substitution permutes the bytes. -/
theorem subByte_bijective : Function.Bijective subByte := by
  have hleft : Function.LeftInverse (fun b => inverse (unaffine b)) subByte :=
    inverse_unaffine_subByte
  exact Finite.injective_iff_bijective.mp hleft.injective

lemma invSubByte_subByte (b : BitVec 8) : invSubByte (subByte b) = b :=
  Function.leftInverse_invFun subByte_bijective.injective b

lemma subByte_invSubByte (b : BitVec 8) : subByte (invSubByte b) = b :=
  Function.rightInverse_invFun subByte_bijective.surjective b

/-- The keyless part of a round. -/
def encrypt (s : State) : State := mixColumns (shiftRows (subBytes s))

/-- A round of decryption, before its key. -/
noncomputable def decrypt (s : State) : State := invMixColumns (invSubBytes (invShiftRows s))

/-- A round loses nothing of the state. -/
theorem encrypt_bijective : Function.Bijective encrypt := by
  apply Function.bijective_iff_has_inverse.mpr
  refine ⟨fun s => invSubBytes (invShiftRows (invMixColumns s)), ?_, ?_⟩
  · intro s
    unfold encrypt
    dsimp only
    rw [invMixColumns_mixColumns, invShiftRows_shiftRows]
    funext r c
    exact invSubByte_subByte (s r c)
  · intro s
    unfold encrypt
    dsimp only
    have hsub : subBytes (invSubBytes (invShiftRows (invMixColumns s)))
        = invShiftRows (invMixColumns s) := by
      funext r c
      exact subByte_invSubByte _
    rw [hsub, shiftRows_invShiftRows, mixColumns_invMixColumns]

theorem decrypt_bijective : Function.Bijective decrypt := by
  apply Function.bijective_iff_has_inverse.mpr
  refine ⟨fun s => shiftRows (subBytes (mixColumns s)), ?_, ?_⟩
  · intro s
    unfold decrypt
    dsimp only
    rw [mixColumns_invMixColumns]
    have hsub : subBytes (invSubBytes (invShiftRows s)) = invShiftRows s := by
      funext r c
      exact subByte_invSubByte _
    rw [hsub, shiftRows_invShiftRows]
  · intro s
    unfold decrypt
    dsimp only
    rw [invShiftRows_shiftRows]
    have hsub : invSubBytes (subBytes (mixColumns s)) = mixColumns s := by
      funext r c
      exact invSubByte_subByte _
    rw [hsub, invMixColumns_mixColumns]

/-! ## Blocks -/

/-- The state of a block of sixteen bytes, lowest first, column by column. -/
def ofBlock (x : BitVec 128) : State := fun r c => x.extractLsb' (8 * (4 * c + r)) 8

/-- The block of a state: its bit `k` is a bit of the byte `k / 8`. -/
def toBlock (s : State) : BitVec 128 :=
  BitVec.ofFnLE fun k => (s ⟨k / 8 % 4, by omega⟩ ⟨k / 32, by omega⟩).getLsbD (k % 8)

/-- A block holds the state column by column. -/
lemma getLsbD_toBlock (s : State) (r c : Fin 4) {k : ℕ} (hk : k < 8) :
    (toBlock s).getLsbD (8 * (4 * c + r) + k) = (s r c).getLsbD k := by
  have hindex : 8 * (4 * c + r) + k < 128 := by omega
  have hrow : (8 * (4 * c + r) + k) / 8 % 4 = r := by omega
  have hcolumn : (8 * (4 * c + r) + k) / 32 = (c : ℕ) := by omega
  have hbit : (8 * (4 * c + r) + k) % 8 = k := by omega
  unfold toBlock
  rw [BitVec.getLsbD_ofFnLE, dif_pos hindex]
  simp only [hrow, hcolumn, hbit]

lemma ofBlock_toBlock (s : State) : ofBlock (toBlock s) = s := by
  funext r c
  apply BitVec.eq_of_getLsbD_eq
  intro k hk
  unfold ofBlock
  rw [BitVec.getLsbD_extractLsb', getLsbD_toBlock s r c hk, decide_eq_true hk, Bool.true_and]

lemma toBlock_ofBlock (x : BitVec 128) : toBlock (ofBlock x) = x := by
  apply BitVec.eq_of_getLsbD_eq
  intro k hk
  have hindex : 8 * (4 * (k / 32) + k / 8 % 4) + k % 8 = k := by omega
  have hbit : k % 8 < 8 := by omega
  unfold toBlock ofBlock
  rw [BitVec.getLsbD_ofFnLE, dif_pos hk, BitVec.getLsbD_extractLsb', decide_eq_true hbit,
    Bool.true_and, hindex]

/-- A bijection of the states, on blocks and followed by the addition of a key, is a bijection. -/
lemma bijective_keyed {f : State → State} (hf : Function.Bijective f) (key : BitVec 128) :
    Function.Bijective fun x => toBlock (f (ofBlock x)) ^^^ key := by
  apply Function.bijective_iff_has_inverse.mpr
  obtain ⟨g, hgf, hfg⟩ := Function.bijective_iff_has_inverse.mp hf
  refine ⟨fun y => toBlock (g (ofBlock (y ^^^ key))), ?_, ?_⟩
  · intro x
    dsimp only
    rw [BitVec.xor_assoc, BitVec.xor_self, BitVec.xor_zero, ofBlock_toBlock, hgf, toBlock_ofBlock]
  · intro y
    dsimp only
    rw [ofBlock_toBlock, hfg, toBlock_ofBlock, BitVec.xor_assoc, BitVec.xor_self, BitVec.xor_zero]

end RandomXSp1.Fips197
