import RandomXSp1.Audit.Monero

/-!
# Seed heights and difficulty

The two formulas for the seed height agree but where a new seed takes effect: there the prover
client is one block early. The carry chain that decides on the difficulty is exact.
-/

namespace RandomXSp1.Audit

/-! ## Seed heights -/

/-- The greatest multiple of 2048 that is at most `height - 65`, or 0 when there is none. -/
def IsSeedHeight (height seed : ℕ) : Prop :=
  (65 ≤ height → IsGreatest {m | 2048 ∣ m ∧ m + 65 ≤ height} seed) ∧ (height < 65 → seed = 0)

lemma seedHeight_le {height : ℕ} (h : 65 ≤ height) : (height - 65) / 2048 * 2048 + 65 ≤ height := by
  omega

lemma isSeedHeight_iff {height seed : ℕ} :
    IsSeedHeight height seed ↔ seed = (height - 65) / 2048 * 2048 := by
  have hgreatest (h : 65 ≤ height) :
      IsGreatest {m | 2048 ∣ m ∧ m + 65 ≤ height} ((height - 65) / 2048 * 2048) := by
    constructor
    · exact ⟨Nat.dvd_mul_left _ _, seedHeight_le h⟩
    · intro m hm
      obtain ⟨⟨k, rfl⟩, hle⟩ := hm
      omega
  constructor
  · intro h
    by_cases hheight : 65 ≤ height
    · exact (h.1 hheight).unique (hgreatest hheight)
    · rw [h.2 (by omega)]
      omega
  · intro h
    rw [h]
    exact ⟨hgreatest, fun _ => by omega⟩

lemma toNat_randomxSeedHeight (height : U64) :
    (randomxSeedHeight height).toNat = (height.toNat - 65) / 2048 * 2048 := by
  unfold randomxSeedHeight
  have hle : height ≤ 2048 + 64 ↔ height.toNat ≤ 2112 := Iff.rfl
  by_cases h : height.toNat ≤ 2112
  · rw [if_pos (hle.mpr h)]
    show 0 = _
    omega
  · rw [if_neg fun hn => h (hle.mp hn)]
    have hsub : (height - 64 - 1).toNat = height.toNat - 65 := by
      rw [BitVec.toNat_sub, BitVec.toNat_sub]
      show (2 ^ 64 - 1 + (2 ^ 64 - 64 + height.toNat) % 2 ^ 64) % 2 ^ 64 = _
      have hlt := height.isLt
      omega
    have hmask : (~~~(2048 - 1) : U64) = (BitVec.allOnes 64 >>> 11) <<< 11 := by decide
    have hand (x : U64) : x &&& (BitVec.allOnes 64 >>> 11) <<< 11 = (x >>> 11) <<< 11 := by
      apply BitVec.eq_of_getLsbD_eq
      intro i hi
      rw [BitVec.getLsbD_and, BitVec.getLsbD_shiftLeft, BitVec.getLsbD_shiftLeft,
        BitVec.getLsbD_ushiftRight, BitVec.getLsbD_ushiftRight, BitVec.getLsbD_allOnes]
      by_cases hlow : i < 11
      · simp [hlow]
      · have hi : 11 + (i - 11) = i := by omega
        rw [hi]
        simp [hlow, Bool.and_comm]
    rw [hmask, hand, BitVec.toNat_shiftLeft, BitVec.toNat_ushiftRight, hsub, Nat.shiftLeft_eq,
      Nat.shiftRight_eq_div_pow]
    have hlt := height.isLt
    omega

lemma toNat_proverSeedHeight (height : U64) :
    (NetworkProver.randomxSeedHeight height).toNat = (height.toNat - 64) / 2048 * 2048 := by
  have hsub : (NetworkProver.saturatingSub height NetworkProver.seedLag).toNat
      = height.toNat - 64 := by
    unfold NetworkProver.saturatingSub
    have hle : NetworkProver.seedLag ≤ height ↔ 64 ≤ height.toNat := Iff.rfl
    have hlt := height.isLt
    split
    · have h64 := hle.mp ‹_›
      rw [BitVec.toNat_sub]
      show (2 ^ 64 - 64 + height.toNat) % 2 ^ 64 = _
      omega
    · have h64 : ¬64 ≤ height.toNat := fun h => ‹¬_› (hle.mpr h)
      show 0 = _
      omega
  unfold NetworkProver.randomxSeedHeight
  rw [BitVec.toNat_mul, BitVec.toNat_udiv, hsub]
  show (height.toNat - 64) / 2048 * 2048 % 2 ^ 64 = _
  have hlt := height.isLt
  omega

/-- The formulas agree, on the right height, except for the first block of an epoch's seed. -/
theorem randomxSeedHeight_agree_iff (height : U64) :
    (NetworkProver.randomxSeedHeight height = randomxSeedHeight height ∧
        IsSeedHeight height.toNat (randomxSeedHeight height).toNat)
      ↔ ¬(2112 ≤ height.toNat ∧ height.toNat % 2048 = 64) := by
  rw [isSeedHeight_iff, ← BitVec.toNat_inj, toNat_proverSeedHeight, toNat_randomxSeedHeight]
  omega

/-- At height 2112 the prover client asks for the seed 2048, the audit crate for the seed 0. -/
theorem randomxSeedHeight_differ :
    ¬∀ height : U64, NetworkProver.randomxSeedHeight height = randomxSeedHeight height ∧
      IsSeedHeight height.toNat (randomxSeedHeight height).toNat := by
  intro h
  exact absurd (h 2112).1 (by decide)

/-! ## Difficulty -/

/-- The chunks, in order, are the bytes. -/
lemma flatten_chunksExact {length count : ℕ} {bytes : List U8} (hpos : 0 < length)
    (h : bytes.length = length * count) : (chunksExact length bytes).flatten = bytes := by
  unfold chunksExact
  rw [h, Nat.mul_div_cancel_left count hpos]
  have hfront (k : ℕ) (hk : k ≤ count) :
      ((List.range k).map fun i => (bytes.drop (length * i)).take length).flatten
        = bytes.take (length * k) := by
    induction k with
    | zero => simp
    | succ k ih =>
      rw [List.range_succ, List.map_append, List.flatten_append, ih (by omega), Nat.mul_succ,
        List.take_add]
      simp
  rw [hfront count le_rfl, ← h, List.take_length]

lemma leBytesToNat_lt (bytes : List U8) : leBytesToNat bytes < 2 ^ (8 * bytes.length) := by
  unfold leBytesToNat
  have h := Nat.ofDigits_lt_base_pow_length (b := 256) (l := bytes.map BitVec.toNat) (by norm_num)
    fun x hx => by
      obtain ⟨b, -, rfl⟩ := List.mem_map.mp hx
      exact b.isLt
  rwa [List.length_map, show 256 = 2 ^ 8 from rfl, ← pow_mul] at h

lemma leBytesToNat_append (low high : List U8) :
    leBytesToNat (low ++ high) = leBytesToNat low + 2 ^ (8 * low.length) * leBytesToNat high := by
  unfold leBytesToNat
  rw [List.map_append, Nat.ofDigits_append, List.length_map, show 256 = 2 ^ 8 from rfl, ← pow_mul]

/-- A limb of higher ones that come later does not change the carry out of this one. -/
lemma div_limb {base : ℕ} (hbase : 0 < base) (carry limb rest d : ℕ) :
    (limb * d + carry) / base + rest * d = (carry + (limb + base * rest) * d) / base := by
  have hsplit : carry + (limb + base * rest) * d = limb * d + carry + base * (rest * d) := by ring
  rw [hsplit, Nat.add_mul_div_left _ _ hbase]

/-- The carry is the part of the product above the limbs that were read. It stays at most the
difficulty, so that the largest limb does not overflow. -/
lemma foldlM_difficultyStep (difficulty : U64) (chunks : List (List U8))
    (hchunks : ∀ chunk ∈ chunks, chunk.length = 8) {carry : ℕ} (hcarry : carry ≤ difficulty.toNat) :
    chunks.foldlM (difficultyStep difficulty) carry
      = some ((carry + leBytesToNat chunks.flatten * difficulty.toNat)
          / 2 ^ (64 * chunks.length)) := by
  induction chunks generalizing carry with
  | nil => simp [leBytesToNat]
  | cons chunk chunks ih =>
    have hlen : chunk.length = 8 := hchunks chunk List.mem_cons_self
    have hlimb : leBytesToNat chunk < 2 ^ 64 := by
      have h := leBytesToNat_lt chunk
      rwa [hlen] at h
    have hd := difficulty.isLt
    have hproduct : leBytesToNat chunk * difficulty.toNat
        ≤ (2 ^ 64 - 1) * difficulty.toNat := Nat.mul_le_mul_right _ (by omega)
    have hstep : difficultyStep difficulty carry chunk
        = some ((leBytesToNat chunk * difficulty.toNat + carry) / 2 ^ 64) := by
      unfold difficultyStep
      dsimp only
      rw [checkedMul_eq (by omega), Option.bind_eq_bind, Option.bind_some,
        checkedAdd_eq (by omega), Option.bind_some, Nat.shiftRight_eq_div_pow]
      rfl
    rw [List.foldlM_cons, hstep, Option.bind_eq_bind, Option.bind_some,
      ih (fun c hc => hchunks c (List.mem_cons_of_mem _ hc)) (by omega)]
    have hpow : 2 ^ (64 * (chunks.length + 1)) = 2 ^ 64 * 2 ^ (64 * chunks.length) := by
      rw [← pow_add]
      ring
    rw [List.flatten_cons, leBytesToNat_append, hlen, List.length_cons, hpow,
      ← Nat.div_div_eq_div_mul]
    exact congrArg (fun n => some (n / 2 ^ (64 * chunks.length)))
      (div_limb (by norm_num) _ _ _ _)

lemma carryChain_eq (hash : Hash) (difficulty : U64) :
    carryChain hash.toList difficulty
      = some (decide (leBytesToNat hash.toList * difficulty.toNat < 2 ^ 256)) := by
  have hlength : hash.toList.length = 8 * 4 := hash.length_toList
  have hchunks : ∀ chunk ∈ chunksExact 8 hash.toList, chunk.length = 8 := by
    intro chunk hchunk
    unfold chunksExact at hchunk
    rw [hlength] at hchunk
    obtain ⟨i, hi, rfl⟩ := List.mem_map.mp hchunk
    have hi : i < 4 := List.mem_range.mp hi
    rw [List.length_take, List.length_drop, hlength]
    omega
  have hcount : (chunksExact 8 hash.toList).length = 4 := by
    unfold chunksExact
    rw [List.length_map, List.length_range, hlength]
  unfold carryChain
  rw [foldlM_difficultyStep difficulty _ hchunks (Nat.zero_le _), hcount,
    flatten_chunksExact (by norm_num) hlength, Option.bind_eq_bind, Option.bind_some, Nat.zero_add]
  congr 1
  rw [Bool.eq_iff_iff, beq_iff_eq, decide_eq_true_iff, Nat.div_eq_zero_iff_lt (by norm_num)]

/-- Both copies decide whether the hash times the difficulty is below `2 ^ 256`, and no product or
sum on the way leaves a `u128`. -/
theorem meetsDifficulty_eq (hash : Hash) (difficulty : U64) :
    meetsDifficulty hash difficulty
        = some (decide (leBytesToNat hash.toList * difficulty.toNat < 2 ^ 256)) ∧
      NetworkProver.meetsDifficulty hash difficulty
        = some (decide (leBytesToNat hash.toList * difficulty.toNat < 2 ^ 256)) :=
  ⟨carryChain_eq hash difficulty, carryChain_eq hash difficulty⟩

end RandomXSp1.Audit
