import RandomXSp1.Argon2.Theorems
import RandomXSp1.Checked

/-!
# The variable-length hash, write by write

`hprime` once more, over an output that records what happens to it: the lengths requested of
Blake2b and the positions written, in order. A length that `hash_length` refuses and a slice out
of bounds end the run.
-/

namespace RandomXSp1.Argon2

/-! ## Recorded writes -/

structure Output where
  bytes : List U8
  requested : List ℕ
  written : List ℕ

namespace Output

/-- What `blake2b` asks of `hash_length`. -/
def request (output : Output) (length : ℕ) : Option Output :=
  if 1 ≤ length ∧ length ≤ 64 then
    some { output with requested := output.requested ++ [length] }
  else none

/-- `out[start..stop].copy_from_slice(bytes)`. -/
def copyFromSlice (output : Output) (start stop : ℕ) (bytes : List U8) : Option Output :=
  if start ≤ stop ∧ stop ≤ output.bytes.length ∧ bytes.length = stop - start then
    some { output with
      bytes := writeAt output.bytes start bytes
      written := output.written ++ List.range' start (stop - start) }
  else none

section
variable (blake2b : (len : ℕ) → List U8 → Vector U8 len)

/-- The loop of `hprime` and its last hash. -/
def hprimeLoop (outLen : ℕ) (output : Output) (outBuffer : Vector U8 blake2bOutLength)
    (outPos toProduce : ℕ) : Option Output :=
  if toProduce > blake2bOutLength then do
    let output ← output.request blake2bOutLength
    let outBuffer := blake2b blake2bOutLength outBuffer.toList
    let output ← output.copyFromSlice outPos (outPos + 32) (outBuffer.toList.take 32)
    hprimeLoop outLen output outBuffer (outPos + 32) (toProduce - 32)
  else do
    let output ← output.request (outLen - outPos)
    output.copyFromSlice outPos outLen (blake2b (outLen - outPos) outBuffer.toList).toList
termination_by toProduce
decreasing_by
  unfold blake2bOutLength at *
  omega

def hprime (out input : List U8) : Option Output := do
  let outLen := out.length
  let output : Output := { bytes := out, requested := [], written := [] }
  if outLen ≤ blake2bOutLength then
    let output ← output.request outLen
    output.copyFromSlice 0 outLen
      (blake2b outLen (toLeBytes (BitVec.ofNat 32 outLen) ++ input)).toList
  else
    let output ← output.request blake2bOutLength
    let outBuffer := blake2b blake2bOutLength (toLeBytes (BitVec.ofNat 32 outLen) ++ input)
    let output ← output.copyFromSlice 0 32 (outBuffer.toList.take 32)
    let toProduce ← checkedSub outLen 32
    hprimeLoop blake2b outLen output outBuffer 32 toProduce

end

variable {output : Output}

lemma request_eq {length : ℕ} (hpos : 1 ≤ length) (hle : length ≤ 64) :
    output.request length = some { output with requested := output.requested ++ [length] } :=
  if_pos ⟨hpos, hle⟩

lemma copyFromSlice_eq {start stop : ℕ} {bytes : List U8} (hle : start ≤ stop)
    (hstop : stop ≤ output.bytes.length) (hlength : bytes.length = stop - start) :
    output.copyFromSlice start stop bytes = some { output with
      bytes := writeAt output.bytes start bytes
      written := output.written ++ List.range' start (stop - start) } :=
  if_pos ⟨hle, hstop, hlength⟩

/-- The positions before `outPos` were written, each of them once. -/
structure Filled (output : Output) (outLen outPos : ℕ) : Prop where
  length_eq : output.bytes.length = outLen
  written : output.written = List.range outPos

lemma range_append_range' {start stop : ℕ} (h : start ≤ stop) :
    List.range start ++ List.range' start (stop - start) = List.range stop := by
  rw [List.range_eq_range', List.range_eq_range']
  have happend := List.range'_append_1 (s := 0) (m := start) (n := stop - start)
  rwa [Nat.zero_add, Nat.add_sub_cancel' h] at happend

/-- A hash that was requested is written right after the positions that were. -/
lemma Filled.hash {outLen start stop length : ℕ} {bytes : List U8} (h : Filled output outLen start)
    (hpos : 1 ≤ length) (hshort : length ≤ 64) (hle : start ≤ stop) (hstop : stop ≤ outLen)
    (hlength : bytes.length = stop - start) :
    ∃ output', (output.request length).bind (copyFromSlice · start stop bytes) = some output' ∧
      Filled output' outLen stop ∧ output'.bytes = writeAt output.bytes start bytes ∧
      output'.requested = output.requested ++ [length] := by
  have hfits : start + bytes.length ≤ output.bytes.length := by
    rw [hlength, h.length_eq]
    omega
  rw [request_eq hpos hshort, Option.bind_some]
  refine ⟨_, copyFromSlice_eq hle (hstop.trans_eq h.length_eq.symm) hlength, ?_, rfl, rfl⟩
  exact {
    length_eq := (length_writeAt hfits).trans h.length_eq
    written := by
      show output.written ++ _ = _
      rw [h.written, range_append_range' hle] }

/-- The lengths requested by the definition of the hash. -/
def lengths (length : ℕ) : List ℕ :=
  if length ≤ 64 then [length]
  else
    let r := (length + 31) / 32 - 2
    List.replicate r 64 ++ [length - 32 * r]

lemma lengths_of_le {length : ℕ} (h : length ≤ 64) : lengths length = [length] := if_pos h

/-- The first hash of a long output, and those of what is left after its 32 bytes. -/
lemma lengths_of_lt {length : ℕ} (h : 64 < length) :
    lengths length = 64 :: lengths (length - 32) := by
  have hsplit {n : ℕ} (hn : 32 < n) :
      lengths n = List.replicate ((n + 31) / 32 - 2) 64 ++ [n - 32 * ((n + 31) / 32 - 2)] := by
    by_cases hle : n ≤ 64
    · have hrounds : (n + 31) / 32 - 2 = 0 := by omega
      rw [lengths_of_le hle, hrounds]
      rfl
    · exact if_neg hle
  obtain ⟨rounds, hrounds⟩ : ∃ rounds, (length + 31) / 32 - 2 = rounds + 1 :=
    ⟨(length + 31) / 32 - 3, by omega⟩
  have hless : (length - 32 + 31) / 32 - 2 = rounds := by omega
  have hlast : length - 32 - 32 * rounds = length - 32 * (rounds + 1) := by omega
  rw [hsplit (by omega), hsplit (by omega), hrounds, hless, hlast, List.replicate_succ]
  rfl

lemma mem_lengths {length len : ℕ} (hpos : 1 ≤ length) (h : len ∈ lengths length) :
    1 ≤ len ∧ len ≤ 64 := by
  unfold lengths at h
  split at h
  · rw [List.mem_singleton.mp h]
    omega
  · cases List.mem_append.mp h with
    | inl hmem =>
      rw [List.eq_of_mem_replicate hmem]
      omega
    | inr hmem =>
      rw [List.mem_singleton.mp hmem]
      omega

section
variable (blake2b : (len : ℕ) → List U8 → Vector U8 len)

lemma length_take_hash (hash : Vector U8 blake2bOutLength) : (hash.toList.take 32).length = 32 := by
  rw [List.length_take, hash.length_toList]
  rfl

/-- The loop writes the rest of the output. It requests 64 bytes while more than that many are
missing, and 33 to 64 at the end. -/
lemma hprimeLoop_writes {outLen outPos toProduce : ℕ} {outBuffer : Vector U8 blake2bOutLength}
    (hfilled : Filled output outLen outPos) (hproduce : outPos + toProduce = outLen)
    (hmany : 32 < toProduce) :
    ∃ output', hprimeLoop blake2b outLen output outBuffer outPos toProduce = some output' ∧
      Filled output' outLen outLen ∧
      output'.bytes = Argon2.hprimeLoop blake2b outLen output.bytes outBuffer outPos toProduce ∧
      output'.requested = output.requested ++ lengths toProduce := by
  induction toProduce using Nat.strongRecOn generalizing output outPos outBuffer with
  | ind toProduce ih =>
    rw [hprimeLoop]
    by_cases hmore : blake2bOutLength < toProduce
    · have hgt : 64 < toProduce := hmore
      have hlength : ((blake2b blake2bOutLength outBuffer.toList).toList.take 32).length
          = outPos + 32 - outPos := by
        rw [length_take_hash, Nat.add_sub_cancel_left]
      -- half of a full hash goes to the output, and the loop goes on behind it
      obtain ⟨output₁, hcopy, hfilled₁, hbytes₁, hrequested₁⟩ :=
        hfilled.hash (by norm_num) (le_refl 64) (Nat.le_add_right outPos 32) (by omega) hlength
      obtain ⟨output₂, hloop, hfilled₂, hbytes₂, hrequested₂⟩ :=
        ih (toProduce - 32) (by omega) hfilled₁ (by omega) (by omega)
      refine ⟨output₂, ?_, hfilled₂, ?_, ?_⟩
      · obtain ⟨output', hrequest, hcopy⟩ := Option.bind_eq_some_iff.mp hcopy
        rw [if_pos hmore, hrequest, Option.bind_eq_bind, Option.bind_some]
        dsimp only
        rw [hcopy, Option.bind_some]
        exact hloop
      · rw [hprimeLoop_of_lt blake2b hmore, hbytes₂, hbytes₁]
      · rw [hrequested₂, hrequested₁, lengths_of_lt hgt, List.append_assoc]
        rfl
    · have hle : toProduce ≤ 64 := Nat.le_of_not_lt hmore
      have hlast : outLen - outPos = toProduce := by omega
      have hlength : (blake2b (outLen - outPos) outBuffer.toList).toList.length
          = outLen - outPos := by simp
      -- the last hash has the length that is missing
      obtain ⟨output₁, hcopy, hfilled₁, hbytes₁, hrequested₁⟩ :=
        hfilled.hash (by omega) (hlast.trans_le hle) (by omega) le_rfl hlength
      refine ⟨output₁, ?_, hfilled₁, ?_, ?_⟩
      · rw [if_neg hmore]
        exact hcopy
      · rw [hprimeLoop_of_le blake2b (Nat.le_of_not_lt hmore), hbytes₁]
      · rw [hrequested₁, lengths_of_le hle, hlast]

lemma hprime_run {out : List U8} (input : List U8) (hpos : 1 ≤ out.length) :
    ∃ output, hprime blake2b out input = some output ∧
      output.bytes = Argon2.hprime blake2b out input ∧
      Filled output out.length out.length ∧ output.requested = lengths out.length := by
  have hfilled : Filled { bytes := out, requested := [], written := [] } out.length 0 := ⟨rfl, rfl⟩
  unfold hprime Argon2.hprime
  dsimp only
  by_cases hshort : out.length ≤ 64
  · have hlength : (blake2b out.length (toLeBytes (BitVec.ofNat 32 out.length) ++ input)).toList.length
        = out.length - 0 := by simp
    obtain ⟨output, hcopy, hfilled', hbytes, hrequested⟩ :=
      hfilled.hash hpos hshort (Nat.zero_le _) le_rfl hlength
    rw [if_pos hshort, if_pos hshort, lengths_of_le hshort]
    refine ⟨output, hcopy, ?_, hfilled', hrequested⟩
    rw [hbytes]
    unfold writeAt
    simp
  · have hlong : ¬out.length ≤ blake2bOutLength := hshort
    have hlength := length_take_hash
      (blake2b blake2bOutLength (toLeBytes (BitVec.ofNat 32 out.length) ++ input))
    obtain ⟨output₁, hcopy, hfilled₁, hbytes₁, hrequested₁⟩ :=
      hfilled.hash (by norm_num) (le_refl 64) (Nat.zero_le 32) (by omega) hlength
    obtain ⟨output₂, hloop, hfilled₂, hbytes₂, hrequested₂⟩ :=
      hprimeLoop_writes blake2b hfilled₁ (Nat.add_sub_cancel' (show 32 ≤ out.length by omega))
        (by omega)
    refine ⟨output₂, ?_, ?_, hfilled₂, ?_⟩
    · obtain ⟨output', hrequest, hcopy⟩ := Option.bind_eq_some_iff.mp hcopy
      rw [if_neg hlong, hrequest, Option.bind_eq_bind, Option.bind_some, hcopy, Option.bind_some,
        checkedSub_eq (by omega)]
      exact hloop
    · rw [if_neg hlong, hbytes₂, hbytes₁]
    · rw [hrequested₂, hrequested₁, lengths_of_lt (Nat.lt_of_not_le hshort)]
      rfl

/-- For a nonempty output whose length is a `u32`, `hprime` does not panic, and leaves the
variable-length hash: it writes every position once, in order, and requests of Blake2b what the
definition of the hash does. -/
theorem hprime_writes (out input : List U8) (hpos : 1 ≤ out.length)
    (hlt : out.length < 2 ^ 32) :
    ∃ output, hprime blake2b out input = some output ∧
      output.bytes = Argon2.hprime blake2b out input ∧
      output.bytes = Textbook.hPrime blake2b out.length input ∧
      output.bytes.length = out.length ∧ output.written = List.range out.length ∧
      output.requested = lengths out.length ∧
      (∀ length ∈ output.requested, 1 ≤ length ∧ length ≤ 64) ∧
      (BitVec.ofNat 32 out.length).toNat = out.length := by
  obtain ⟨output, hrun, hbytes, hfilled, hrequested⟩ := hprime_run blake2b input hpos
  refine ⟨output, hrun, hbytes, hbytes.trans (hprime_eq_hPrime blake2b out input),
    hfilled.length_eq, hfilled.written, hrequested, ?_, ?_⟩
  · intro length hlength
    rw [hrequested] at hlength
    exact mem_lengths hpos hlength
  · rw [BitVec.toNat_ofNat, Nat.mod_eq_of_lt hlt]

/-- A length just above a multiple of 32. -/
theorem hprime_writes_97 : ∃ output,
    hprime (fun len _ => Vector.replicate len 1) (List.replicate 97 0) [] = some output ∧
      output.written = List.range 97 ∧ output.requested = [64, 64, 33] := by
  obtain ⟨output, hrun, -, -, -, hwritten, hrequested, -⟩ :=
    hprime_writes (fun len _ => Vector.replicate len 1) (List.replicate 97 0) []
      (by rw [List.length_replicate]; norm_num) (by rw [List.length_replicate]; norm_num)
  rw [List.length_replicate] at hwritten hrequested
  exact ⟨output, hrun, hwritten, hrequested⟩

end

end Output

end RandomXSp1.Argon2
