import RandomXSp1.Aes.Theorems
import RandomXSp1.Vm.State

/-!
# Generators and their seeds

A round permutes the four states, so every line of a scratchpad and every four entries of a
program determine the seed they were generated from. The hash of a scratchpad absorbs a line as
keys: it is injective in each line.
-/

namespace RandomXSp1.Aes

open Fips197

/-! ## Rounds -/

/-- A round loses nothing of the state, nor of the key. -/
lemma aesenc_injective (key : U128) : Function.Injective fun state => aesenc state key := by
  simp only [aesenc_eq]
  exact (bijective_keyed encrypt_bijective key).injective

lemma aesdec_injective (key : U128) : Function.Injective fun state => aesdec state key := by
  simp only [aesdec_eq]
  exact (bijective_keyed decrypt_bijective key).injective

lemma aesenc_key_injective (state : U128) : Function.Injective (aesenc state) := by
  intro key key' h
  rw [aesenc_eq, aesenc_eq] at h
  exact (BitVec.xor_right_inj _).mp h

lemma aesdec_key_injective (state : U128) : Function.Injective (aesdec state) := by
  intro key key' h
  rw [aesdec_eq, aesdec_eq] at h
  exact (BitVec.xor_right_inj _).mp h

/-- Four states that are equal one by one. -/
lemma state_ext {s t : State} (h0 : s.get 0 = t.get 0) (h1 : s.get 1 = t.get 1)
    (h2 : s.get 2 = t.get 2) (h3 : s.get 3 = t.get 3) : s = t := by
  apply Vector.ext
  intro i hi
  match i, hi with
  | 0, _ => exact h0
  | 1, _ => exact h1
  | 2, _ => exact h2
  | 3, _ => exact h3

section
variable {α : Type} {a0 a1 a2 a3 b0 b1 b2 b3 : α}

lemma four_inj (h : #v[a0, a1, a2, a3] = #v[b0, b1, b2, b3]) :
    a0 = b0 ∧ a1 = b1 ∧ a2 = b2 ∧ a3 = b3 := by
  simpa using congrArg Vector.toList h

end

lemma decEncRound_injective (keys : State) : Function.Injective fun s => decEncRound s keys := by
  intro s t h
  obtain ⟨h0, h1, h2, h3⟩ := four_inj h
  exact state_ext (aesdec_injective _ h0) (aesenc_injective _ h1) (aesdec_injective _ h2)
    (aesenc_injective _ h3)

/-- Rounds on the four columns, which are encrypted and decrypted by turns, lose nothing either. -/
lemma encDecRound_injective (keys : State) : Function.Injective fun s => encDecRound s keys := by
  intro s t h
  obtain ⟨h0, h1, h2, h3⟩ := four_inj h
  exact state_ext (aesenc_injective _ h0) (aesdec_injective _ h1) (aesenc_injective _ h2)
    (aesdec_injective _ h3)

lemma encDecRound_keys_injective (s : State) : Function.Injective (encDecRound s) := by
  intro keys keys' h
  obtain ⟨h0, h1, h2, h3⟩ := four_inj h
  exact state_ext (aesenc_key_injective _ h0) (aesdec_key_injective _ h1)
    (aesenc_key_injective _ h2) (aesdec_key_injective _ h3)

/-- Nor do the rounds of the generators, whose keys are constants. -/
lemma genRounds_injective : Function.Injective genRounds := by
  unfold genRounds
  exact (decEncRound_injective _).comp ((decEncRound_injective _).comp
    ((decEncRound_injective _).comp (decEncRound_injective _)))

/-! ## Words -/

/-- A column is its two words. -/
lemma eq_of_low_high {x y : U128} (hlow : low x = low y) (hhigh : high x = high y) : x = y := by
  apply BitVec.eq_of_getLsbD_eq
  intro k hk
  by_cases h : k < 64
  · have hbit := congrArg (fun w => w.getLsbD k) hlow
    simpa [low, h] using hbit
  · have hbit := congrArg (fun w => w.getLsbD (k - 64)) hhigh
    have hlt : k - 64 < 64 := by omega
    have hadd : 64 + (k - 64) = k := by omega
    simpa [high, hlt, hadd] using hbit

lemma fromU64_injective {u1 u0 w1 w0 : U64} (h : fromU64 u1 u0 = fromU64 w1 w0) :
    u1 = w1 ∧ u0 = w0 := by
  have hlow (a b : U64) : (fromU64 a b).setWidth 64 = b := by
    unfold fromU64
    ext i hi
    simp
  have hhigh (a b : U64) : ((fromU64 a b) >>> 64).setWidth 64 = a := by
    unfold fromU64
    ext i hi
    simp [hi, show 64 + i < 128 by omega]
  exact ⟨by rw [← hhigh u1 u0, h, hhigh], by rw [← hlow u1 u0, h, hlow]⟩

lemma toList_eq (s : State) : s.toList = [s.get 0, s.get 1, s.get 2, s.get 3] := by
  obtain ⟨a, b, c, d, hlist⟩ := List.length_eq_four.mp s.length_toList
  have hs : s = #v[a, b, c, d] := Vector.toList_inj.mp hlist
  rw [hs]
  rfl

/-- The words of a state determine it. -/
lemma words_injective : Function.Injective State.words := by
  intro s t h
  unfold State.words at h
  rw [toList_eq s, toList_eq t] at h
  simp only [List.flatMap_cons, List.flatMap_nil, List.cons_append, List.nil_append,
    List.cons.injEq] at h
  obtain ⟨l0, h0, l1, h1, l2, h2, l3, h3, -⟩ := h
  exact state_ext (eq_of_low_high l0 h0) (eq_of_low_high l1 h1) (eq_of_low_high l2 h2)
    (eq_of_low_high l3 h3)

/-! ## Streams -/

/-- The state after some chunks of the fill. -/
def fillState (chunks : ℕ) (seed : State) : State := (fun s => decEncRound s keys1rx4)^[chunks] seed

/-- The state after any number of chunks determines the first one. -/
lemma fillState_injective (chunks : ℕ) : Function.Injective (fillState chunks) :=
  (decEncRound_injective keys1rx4).iterate chunks

/-- What is left of a fill is the state after its last chunk. -/
lemma snd_fillChunks (chunks : ℕ) (seed : State) :
    (fillChunks chunks seed).2 = fillState chunks seed := by
  induction chunks generalizing seed with
  | zero => rfl
  | succ chunks ih => exact ih _

/-- Every line of the fill is a state. -/
lemma line_fillChunks {chunks line : ℕ} (h : line < chunks) (seed : State) :
    ((fillChunks chunks seed).1.drop (8 * line)).take 8 = (fillState (line + 1) seed).words := by
  induction chunks generalizing line seed with
  | zero => omega
  | succ chunks ih =>
    have hlength := length_words (decEncRound seed keys1rx4)
    show (((decEncRound seed keys1rx4).words ++ (fillChunks chunks _).1).drop (8 * line)).take 8 = _
    cases line with
    | zero =>
      rw [Nat.mul_zero, List.drop_zero, List.take_append_of_le_length hlength.ge,
        List.take_of_length_le hlength.le]
      rfl
    | succ line =>
      have hdrop : 8 * (line + 1) = (decEncRound seed keys1rx4).words.length + 8 * line := by
        rw [hlength]
        omega
      rw [hdrop, List.drop_length_add_append, ih (by omega)]
      rfl

lemma genProgramLoop_of_lt {outputSize outIx : ℕ} (h : outIx < outputSize) (state : State) :
    genProgramLoop outputSize outIx state
      = (genRounds state).toList ++ genProgramLoop outputSize (outIx + 4) (genRounds state) := by
  rw [genProgramLoop, if_pos h]

/-- Every four entries of a program are a state. -/
lemma group_genProgramLoop {outputSize outIx group : ℕ} (h : outIx + 4 * group < outputSize)
    (seed : State) :
    ((genProgramLoop outputSize outIx seed).drop (4 * group)).take 4
      = (genRounds^[group + 1] seed).toList := by
  have hlength (s : State) : s.toList.length = 4 := s.length_toList
  induction group generalizing outIx seed with
  | zero =>
    rw [genProgramLoop_of_lt (by omega), Nat.mul_zero, List.drop_zero,
      List.take_append_of_le_length (hlength _).ge, List.take_of_length_le (hlength _).le]
    rfl
  | succ group ih =>
    have hdrop : 4 * (group + 1) = (genRounds seed).toList.length + 4 * group := by
      rw [hlength]
      omega
    rw [genProgramLoop_of_lt (by omega), hdrop, List.drop_length_add_append, ih (by omega)]
    rfl

/-! ## Hashes of scratchpads -/

/-- The keys that a line is absorbed as. -/
lemma hashChunks_line {s : State} {w0 w1 w2 w3 w4 w5 w6 w7 : U64} (rest : List U64) :
    hashChunks s (w0 :: w1 :: w2 :: w3 :: w4 :: w5 :: w6 :: w7 :: rest)
      = hashChunks (encDecRound s #v[fromU64 w1 w0, fromU64 w3 w2, fromU64 w5 w4, fromU64 w7 w6])
          rest := by
  rw [hashChunks]

lemma exists_of_length_eq_eight {l : List U64} (h : l.length = 8) :
    ∃ w0 w1 w2 w3 w4 w5 w6 w7, l = [w0, w1, w2, w3, w4, w5, w6, w7] := by
  match l, h with
  | [w0, w1, w2, w3, w4, w5, w6, w7], _ => exact ⟨w0, w1, w2, w3, w4, w5, w6, w7, rfl⟩

/-- The words are absorbed line by line. -/
lemma hashChunks_append {front : List U64} {lines : ℕ} (h : front.length = 8 * lines) (s : State)
    (rest : List U64) : hashChunks s (front ++ rest) = hashChunks (hashChunks s front) rest := by
  induction lines generalizing front s with
  | zero =>
    obtain rfl := List.eq_nil_of_length_eq_zero h
    rw [List.nil_append]
    rfl
  | succ lines ih =>
    obtain ⟨w0, w1, w2, w3, w4, w5, w6, w7, hline⟩ :=
      exists_of_length_eq_eight (show (front.take 8).length = 8 by rw [List.length_take]; omega)
    have hdrop : (front.drop 8).length = 8 * lines := by
      rw [List.length_drop]
      omega
    rw [← List.take_append_drop 8 front, hline, List.append_assoc]
    show hashChunks s (w0 :: w1 :: w2 :: w3 :: w4 :: w5 :: w6 :: w7 :: (front.drop 8 ++ rest))
      = hashChunks (hashChunks s
          (w0 :: w1 :: w2 :: w3 :: w4 :: w5 :: w6 :: w7 :: front.drop 8)) rest
    rw [hashChunks_line, hashChunks_line, ih hdrop]

/-- Absorbing the same words keeps states apart. -/
lemma hashChunks_injective {lines : ℕ} {words : List U64} (h : words.length = 8 * lines) :
    Function.Injective fun s => hashChunks s words := by
  induction lines generalizing words with
  | zero =>
    obtain rfl := List.eq_nil_of_length_eq_zero h
    exact Function.injective_id
  | succ lines ih =>
    obtain ⟨w0, w1, w2, w3, w4, w5, w6, w7, hline⟩ :=
      exists_of_length_eq_eight (show (words.take 8).length = 8 by rw [List.length_take]; omega)
    have hdrop : (words.drop 8).length = 8 * lines := by
      rw [List.length_drop]
      omega
    have hwords : words = w0 :: w1 :: w2 :: w3 :: w4 :: w5 :: w6 :: w7 :: words.drop 8 := by
      conv_lhs => rw [← List.take_append_drop 8 words, hline]
      rfl
    rw [hwords]
    simp only [hashChunks_line]
    exact (ih hdrop).comp (encDecRound_injective _)

/-- A line is absorbed without loss. -/
lemma hashChunks_line_injective {l m : List U64} (hl : l.length = 8) (hm : m.length = 8)
    {s : State} (h : hashChunks s l = hashChunks s m) : l = m := by
  obtain ⟨w0, w1, w2, w3, w4, w5, w6, w7, rfl⟩ := exists_of_length_eq_eight hl
  obtain ⟨v0, v1, v2, v3, v4, v5, v6, v7, rfl⟩ := exists_of_length_eq_eight hm
  rw [hashChunks_line, hashChunks_line] at h
  obtain ⟨k0, k1, k2, k3⟩ := four_inj (encDecRound_keys_injective s h)
  obtain ⟨rfl, rfl⟩ := fromU64_injective k0
  obtain ⟨rfl, rfl⟩ := fromU64_injective k1
  obtain ⟨rfl, rfl⟩ := fromU64_injective k2
  obtain ⟨rfl, rfl⟩ := fromU64_injective k3
  rfl

/-- No change of a scratchpad within one line of 64 bytes goes unnoticed: its hash changes. -/
theorem hashAes1rx4_ne {a b : Array U64} (hwhole : a.size % 8 = 0) (hsize : b.size = a.size)
    (line : ℕ) (hother : ∀ k, k / 8 ≠ line → a[k]? = b[k]?) (hne : a ≠ b) :
    hashAes1rx4 a ≠ hashAes1rx4 b := by
  -- past the end there is no line to differ in
  have hline : 8 * line + 8 ≤ a.size := by
    by_contra hlt
    apply hne
    apply Array.ext hsize.symm
    intro k hk hk'
    have hk8 := hother k (by omega)
    rw [Array.getElem?_eq_getElem hk, Array.getElem?_eq_getElem hk'] at hk8
    exact Option.some.inj hk8
  have hother' (k : ℕ) (hk : k / 8 ≠ line) : a.toList[k]? = b.toList[k]? := by
    rw [Array.getElem?_toList, Array.getElem?_toList]
    exact hother k hk
  have hfront : b.toList.take (8 * line) = a.toList.take (8 * line) := by
    apply List.ext_getElem?
    intro k
    rw [List.getElem?_take, List.getElem?_take]
    split
    · exact (hother' k (by omega)).symm
    · rfl
  have hback : b.toList.drop (8 * line + 8) = a.toList.drop (8 * line + 8) := by
    apply List.ext_getElem?
    intro k
    rw [List.getElem?_drop, List.getElem?_drop]
    exact (hother' _ (by omega)).symm
  have hsplit (l : List U64) : l
      = l.take (8 * line) ++ ((l.drop (8 * line)).take 8 ++ l.drop (8 * line + 8)) := by
    rw [← List.drop_drop, List.take_append_drop, List.take_append_drop]
  have hmiddle (l : List U64) (hl : l.length = a.size) :
      ((l.drop (8 * line)).take 8).length = 8 := by
    rw [List.length_take, List.length_drop, hl]
    omega
  have hfrontLength : (a.toList.take (8 * line)).length = 8 * line := by
    rw [List.length_take, Array.length_toList]
    omega
  have hbackLength : (a.toList.drop (8 * line + 8)).length = 8 * (a.size / 8 - line - 1) := by
    rw [List.length_drop, Array.length_toList]
    omega
  have hma := hmiddle a.toList a.length_toList
  have hmb := hmiddle b.toList (b.length_toList.trans hsize)
  intro h
  unfold hashAes1rx4 at h
  rw [hsize, if_pos hwhole, if_pos hwhole] at h
  -- backwards: the two final rounds, the lines behind, and then the line that differs
  have hstate := encDecRound_injective _ (encDecRound_injective _ (Option.some.inj h))
  rw [hsplit a.toList, hsplit b.toList, hfront, hback, hashChunks_append hfrontLength,
    hashChunks_append hfrontLength, hashChunks_append (hma.trans (Nat.mul_one 8).symm),
    hashChunks_append (hmb.trans (Nat.mul_one 8).symm)] at hstate
  have hsame := hashChunks_line_injective hma hmb (hashChunks_injective hbackLength hstate)
  apply hne
  rw [← Array.toList_inj, hsplit a.toList, hsplit b.toList, hfront, hback, hsame]

lemma hashAes1rx4_ne_lastWord :
    hashAes1rx4 (Array.replicate scratchpadWords 0)
      ≠ hashAes1rx4 ((Array.replicate scratchpadWords 0).set! 262143 1) := by
  apply hashAes1rx4_ne (by simp [scratchpadWords]) (by simp) 32767
  · intro k hk
    have hne : 262143 ≠ k := by rintro rfl; exact hk rfl
    simp [hne]
  · intro h
    have hlast := congrArg (fun x : Array U64 => x[262143]?) h
    simp [scratchpadWords] at hlast

/-! ## Seeds -/

lemma getLsbD_fromU8 {bytes : List U8} {i j : ℕ} (hi : i < bytes.length) (h16 : i < 16)
    (hj : j < 8) : (fromU8 bytes).getLsbD (8 * i + j) = bytes[i].getLsbD j := by
  induction bytes generalizing i with
  | nil => exact absurd hi (by simp)
  | cons byte bytes ih =>
    show ((fromU8 bytes <<< 8) ||| byte.setWidth 128).getLsbD (8 * i + j) = _
    have hlt : 8 * i + j < 128 := by omega
    rw [BitVec.getLsbD_or, BitVec.getLsbD_shiftLeft, BitVec.getLsbD_setWidth, decide_eq_true hlt,
      Bool.true_and, Bool.true_and]
    cases i with
    | zero =>
      rw [decide_eq_true (show 8 * 0 + j < 8 by omega), Nat.mul_zero, Nat.zero_add]
      rfl
    | succ i =>
      have hzero : byte.getLsbD (8 * (i + 1) + j) = false := BitVec.getLsbD_of_ge _ _ (by omega)
      rw [decide_eq_false (show ¬8 * (i + 1) + j < 8 by omega), hzero, Bool.or_false,
        show 8 * (i + 1) + j - 8 = 8 * i + j by omega,
        ih (Nat.lt_of_succ_lt_succ hi) (by omega)]
      rfl

/-- Sixteen bytes and a column determine each other. -/
lemma fromU8_injective {l m : List U8} (hl : l.length = 16) (hm : m.length = 16)
    (h : fromU8 l = fromU8 m) : l = m := by
  apply List.ext_getElem (hl.trans hm.symm)
  intro i hi hi'
  apply BitVec.eq_of_getLsbD_eq
  intro j hj
  rw [← getLsbD_fromU8 hi (by omega) hj, ← getLsbD_fromU8 hi' (by omega) hj, h]

/-- So do a seed and its state. -/
lemma hashToM128iArray_injective : Function.Injective hashToM128iArray := by
  intro hash hash' h
  have hblock (i : ℕ) (hi : i < 4) :
      (hash.toList.drop (16 * i)).take 16 = (hash'.toList.drop (16 * i)).take 16 := by
    have hlength (v : Vector U8 64) : ((v.toList.drop (16 * i)).take 16).length = 16 := by
      rw [List.length_take, List.length_drop, Vector.length_toList]
      omega
    apply fromU8_injective (hlength hash) (hlength hash')
    have hentry := congrArg (fun v : State => v[i]) h
    simpa [hashToM128iArray] using hentry
  apply Vector.toList_inj.mp
  have hsplit (v : Vector U8 64) : v.toList = (v.toList.drop (16 * 0)).take 16
      ++ ((v.toList.drop (16 * 1)).take 16 ++ ((v.toList.drop (16 * 2)).take 16
        ++ (v.toList.drop (16 * 3)).take 16)) := by
    have hlast : (v.toList.drop (16 * 3)).take 16 = v.toList.drop (16 * 3) := by
      apply List.take_of_length_le
      rw [List.length_drop, Vector.length_toList]
    rw [hlast, show 16 * 3 = 16 * 2 + 16 from rfl, ← List.drop_drop, List.take_append_drop,
      show 16 * 2 = 16 * 1 + 16 from rfl, ← List.drop_drop, List.take_append_drop,
      show 16 * 1 = 16 * 0 + 16 from rfl, ← List.drop_drop, List.take_append_drop]
    rfl
  rw [hsplit hash, hsplit hash', hblock 0 (by omega), hblock 1 (by omega), hblock 2 (by omega),
    hblock 3 (by omega)]

/-- The fill of a scratchpad whose size is that of some chunks. -/
lemma initScratchpad_eq {vm : Vm} {chunks : ℕ} (h : vm.scratchpad.size = 8 * chunks)
    (seed : State) :
    vm.initScratchpad seed
      = some
          ({ vm with scratchpad := (fillChunks chunks seed).1.toArray }, fillState chunks seed) := by
  unfold Vm.initScratchpad
  rw [fillAes1rx4U64_eq h, ← snd_fillChunks]
  rfl

/-- Inputs with different digests start from scratchpads that differ in every line of 64 bytes, and
their first programs differ in every 64 bytes. -/
theorem initScratchpad_ne {blake2b : Blake2b} {input input' : List U8}
    (hdigest : blake2b 64 input ≠ blake2b 64 input') {vm vm' : Vm}
    (hsize : vm.scratchpad.size = scratchpadWords) (hsize' : vm'.scratchpad.size = scratchpadWords)
    {filled filled' : Vm × State}
    (h : vm.initScratchpad (hashToM128iArray (blake2b 64 input)) = some filled)
    (h' : vm'.initScratchpad (hashToM128iArray (blake2b 64 input')) = some filled') :
    (∀ line < scratchpadWords / 8, (filled.1.scratchpad.toList.drop (8 * line)).take 8
        ≠ (filled'.1.scratchpad.toList.drop (8 * line)).take 8) ∧
      ∀ group < programBytes / 4,
        ((genProgramAes4rx4 filled.2 programBytes).drop (4 * group)).take 4
          ≠ ((genProgramAes4rx4 filled'.2 programBytes).drop (4 * group)).take 4 := by
  have hseed : hashToM128iArray (blake2b 64 input) ≠ hashToM128iArray (blake2b 64 input') :=
    fun hseed => hdigest (hashToM128iArray_injective hseed)
  obtain ⟨chunks, hchunks⟩ : ∃ chunks, scratchpadWords = 8 * chunks := ⟨32768, rfl⟩
  -- a variable for the number of chunks, so that nothing evaluates the fill
  rw [initScratchpad_eq (hsize.trans hchunks)] at h
  rw [initScratchpad_eq (hsize'.trans hchunks)] at h'
  obtain rfl := Option.some.inj h
  obtain rfl := Option.some.inj h'
  constructor
  · intro line hline heq
    have hline' : line < chunks := by omega
    dsimp only at heq
    rw [line_fillChunks hline', line_fillChunks hline'] at heq
    exact hseed (fillState_injective _ (words_injective heq))
  · intro group hgroup heq
    have hlt : 0 + 4 * group < programBytes := by omega
    unfold genProgramAes4rx4 at heq
    rw [group_genProgramLoop hlt, group_genProgramLoop hlt] at heq
    have hstate := genRounds_injective.iterate _ (Vector.toList_inj.mp heq)
    exact hseed (fillState_injective _ hstate)

lemma initScratchpad_ne_newVm :
    let blake2b : Blake2b := fun len input => Vector.replicate len (input.headD 0)
    ∃ filled filled' : Vm × State,
      (Vm.newVm SeedMemory.noMemory).initScratchpad (hashToM128iArray (blake2b 64 [1]))
        = some filled ∧
      (Vm.newVm SeedMemory.noMemory).initScratchpad (hashToM128iArray (blake2b 64 [2]))
        = some filled' ∧
      (filled.1.scratchpad.toList.drop (8 * 5)).take 8
        ≠ (filled'.1.scratchpad.toList.drop (8 * 5)).take 8 := by
  intro blake2b
  have hsize := Vm.size_newVm SeedMemory.noMemory
  have hfill (seed : State) : ∃ filled, (Vm.newVm SeedMemory.noMemory).initScratchpad seed
      = some filled := by
    obtain ⟨chunks, hchunks⟩ : ∃ chunks, scratchpadWords = 8 * chunks := ⟨32768, rfl⟩
    exact ⟨_, initScratchpad_eq (hsize.trans hchunks) seed⟩
  have hdigest : blake2b 64 [1] ≠ blake2b 64 [2] := by
    intro h
    have hhead := congrArg (fun v : Vector U8 64 => v[0]) h
    simp [blake2b] at hhead
  obtain ⟨filled, h⟩ := hfill (hashToM128iArray (blake2b 64 [1]))
  obtain ⟨filled', h'⟩ := hfill (hashToM128iArray (blake2b 64 [2]))
  exact ⟨filled, filled', h, h', (initScratchpad_ne hdigest hsize hsize h h').1 5 (by decide)⟩

end RandomXSp1.Aes
