import RandomXSp1.Superscalar.Generator

/-!
# What the Blake2 generator returns

The generator once more, with indices that are checked and a count of the refills, serving any
sequence of requests. Each answer is recorded with where its bytes were read.
-/

namespace RandomXSp1.Superscalar

/-! ## Requests and readings -/

inductive Request where
  | byte
  | u32

/-- The number of bytes requested. -/
def Request.width : Request → ℕ
  | byte => 1
  | u32 => 4

/-- The answer to a request: the bytes of the buffer from `start` on, after so many refills. -/
structure Reading where
  request : Request
  refills : ℕ
  start : ℕ
  value : ℕ

def Reading.stop (reading : Reading) : ℕ := reading.start + reading.request.width

namespace Blake2Generator

section
variable (hash : Vector U8 blakeGenDataLen → Vector U8 blakeGenDataLen)

/-- The fields of the generator, unconstrained, and the number of refills so far. -/
structure Counted where
  index : ℕ
  data : Vector U8 blakeGenDataLen
  refills : ℕ

namespace Counted

def checkData (g : Counted) (needed : ℕ) : Counted :=
  if g.index + needed > blakeGenDataLen then
    { index := 0, data := hash g.data, refills := g.refills + 1 }
  else g

/-- `data[index..index + width]`. -/
def slice (g : Counted) (width : ℕ) : Option (List U8) :=
  if g.index + width ≤ blakeGenDataLen then some ((g.data.toList.drop g.index).take width)
  else none

lemma slice_eq {g : Counted} {width : ℕ} (h : g.index + width ≤ blakeGenDataLen) :
    g.slice width = some ((g.data.toList.drop g.index).take width) := if_pos h

/-- `get_byte` or `get_u32`. -/
def serve (g : Counted) (request : Request) : Option (Reading × Counted) := do
  let g := g.checkData hash request.width
  let bytes ← g.slice request.width
  return ({ request, refills := g.refills, start := g.index, value := leBytesToNat bytes },
    { g with index := g.index + request.width })

def serveAll (g : Counted) : List Request → Option (List Reading)
  | [] => some []
  | request :: rest => do
    let (reading, g) ← g.serve hash request
    return reading :: (← serveAll g rest)

end Counted

def answer (g : Blake2Generator) : Request → ℕ × Blake2Generator
  | .byte => let (value, g) := g.getByte hash; (value.toNat, g)
  | .u32 => let (value, g) := g.getU32 hash; (value.toNat, g)

/-- What the generator returns for the requests in turn. -/
def answers (g : Blake2Generator) : List Request → List ℕ
  | [] => []
  | request :: rest => (g.answer hash request).1 :: answers (g.answer hash request).2 rest

/-- The generator with its refills counted. -/
def counted (g : Blake2Generator) (refills : ℕ) : Counted where
  index := g.index
  data := g.data
  refills := refills

end

/-! ## One request -/

section
variable {data : Vector U8 blakeGenDataLen} {i : ℕ}

lemma take_drop_toList {width : ℕ} (h : i + width ≤ blakeGenDataLen) :
    (data.toList.drop i).take width
      = List.ofFn fun j : Fin width => data.get ⟨i + j, by omega⟩ := by
  apply List.ext_getElem
  · rw [List.length_take, List.length_drop, data.length_toList, List.length_ofFn]
    omega
  · intro j hj hj'
    rw [List.getElem_take, List.getElem_drop, List.getElem_ofFn]
    rfl

lemma leBytesToNat_byte (h : i + 1 ≤ blakeGenDataLen) :
    leBytesToNat ((data.toList.drop i).take 1) = (data.get ⟨i, h⟩).toNat := by
  rw [take_drop_toList h]
  exact Nat.ofDigits_singleton

lemma toNat_append_byte {width : ℕ} (high : BitVec width) (low : U8) :
    (high ++ low).toNat = low.toNat + 256 * high.toNat := by
  rw [BitVec.toNat_append, ← Nat.shiftLeft_add_eq_or_of_lt low.isLt, Nat.shiftLeft_eq]
  omega

lemma leBytesToNat_u32 (h : i + 4 ≤ blakeGenDataLen) :
    leBytesToNat ((data.toList.drop i).take 4)
      = (data.get ⟨i + 3, by omega⟩ ++ data.get ⟨i + 2, by omega⟩ ++ data.get ⟨i + 1, by omega⟩
          ++ data.get ⟨i, by omega⟩).toNat := by
  rw [take_drop_toList h, toNat_append_byte, toNat_append_byte, toNat_append_byte]
  unfold leBytesToNat
  simp [List.ofFn_succ, Nat.ofDigits]

end

section
variable (hash : Vector U8 blakeGenDataLen → Vector U8 blakeGenDataLen)

/-- A reading that comes next, where the buffer after `refills` refills is used up to `index`. It
starts there, or in a new buffer: then nothing was left, or too little for a `u32`. -/
def Continues (refills index : ℕ) (reading : Reading) : Prop :=
  (reading.refills = refills ∧ reading.start = index) ∨
    (reading.refills = refills + 1 ∧ reading.start = 0 ∧
      (index = blakeGenDataLen ∨ reading.request = .u32 ∧ blakeGenDataLen < index + 4))

/-- The value is that of bytes of the buffer after the refills. -/
structure IsReading (initial : Vector U8 blakeGenDataLen) (reading : Reading) : Prop where
  refilled : 1 ≤ reading.refills
  fits : reading.stop ≤ blakeGenDataLen
  value : reading.value = leBytesToNat
    (((hash^[reading.refills] initial).toList.drop reading.start).take reading.request.width)

/-- The buffer is the image of the initial one, which counts as used up. -/
structure Reached (initial : Vector U8 blakeGenDataLen) (g : Blake2Generator) (refills : ℕ) :
    Prop where
  data : g.data = hash^[refills] initial
  used : refills = 0 → g.index = blakeGenDataLen

/-- An answer is read off the checked buffer. -/
lemma answer_eq (g : Blake2Generator) (request : Request) :
    (g.answer hash request).1 = leBytesToNat (((g.checkData hash request.width).data.toList.drop
        (g.checkData hash request.width).index).take request.width) ∧
      (g.answer hash request).2.index = (g.checkData hash request.width).index + request.width ∧
      (g.answer hash request).2.data = (g.checkData hash request.width).data := by
  cases request with
  | byte =>
    have hfits : (g.checkData hash 1).index + 1 ≤ blakeGenDataLen :=
      checkData_index hash g (by decide)
    exact ⟨(leBytesToNat_byte hfits).symm, rfl, rfl⟩
  | u32 =>
    have hfits : (g.checkData hash 4).index + 4 ≤ blakeGenDataLen :=
      checkData_index hash g (by decide)
    exact ⟨(leBytesToNat_u32 hfits).symm, rfl, rfl⟩

/-- The refills after the check. -/
def refillsAfter (g : Blake2Generator) (refills : ℕ) (request : Request) : ℕ :=
  if g.index + request.width > blakeGenDataLen then refills + 1 else refills

/-- The record of the answer. -/
def reading (g : Blake2Generator) (refills : ℕ) (request : Request) : Reading where
  request := request
  refills := g.refillsAfter refills request
  start := (g.checkData hash request.width).index
  value := (g.answer hash request).1

lemma stop_reading (g : Blake2Generator) (refills : ℕ) (request : Request) :
    (g.reading hash refills request).stop = (g.answer hash request).2.index :=
  (answer_eq hash g request).2.1.symm

lemma serve_counted (g : Blake2Generator) (refills : ℕ) (request : Request) :
    (g.counted refills).serve hash request = some (g.reading hash refills request,
      (g.answer hash request).2.counted (g.refillsAfter refills request)) := by
  obtain ⟨hvalue, hindex, hdata⟩ := answer_eq hash g request
  have hcheck : (g.counted refills).checkData hash request.width
      = (g.checkData hash request.width).counted (g.refillsAfter refills request) := by
    unfold Counted.checkData checkData counted refillsAfter
    split <;> rfl
  have hwidth : request.width ≤ blakeGenDataLen := by cases request <;> decide
  have hfits : ((g.checkData hash request.width).counted
      (g.refillsAfter refills request)).index + request.width ≤ blakeGenDataLen :=
    checkData_index hash g hwidth
  unfold Counted.serve
  rw [hcheck]
  dsimp only
  rw [Counted.slice_eq hfits]
  unfold counted reading
  rw [hvalue, hindex, hdata]
  rfl

/-- What one request does: it goes on from a reached generator, and reaches the next one. -/
lemma Reached.reading {initial : Vector U8 blakeGenDataLen} {g : Blake2Generator} {refills : ℕ}
    (h : Reached hash initial g refills) (request : Request) :
    IsReading hash initial (g.reading hash refills request) ∧
      Continues refills g.index (g.reading hash refills request) ∧
      Reached hash initial (g.answer hash request).2 (g.refillsAfter refills request) := by
  obtain ⟨hvalue, hindex, hdata⟩ := answer_eq hash g request
  have hwidth : request.width ≤ blakeGenDataLen := by cases request <;> decide
  have hfits := checkData_index hash g hwidth
  have hpos : 1 ≤ request.width := by cases request <;> decide
  have hbuffer : (g.checkData hash request.width).data
      = hash^[g.refillsAfter refills request] initial := by
    unfold checkData refillsAfter
    split
    · rw [Function.iterate_succ_apply', ← h.data]
    · exact h.data
  have hrefilled : 1 ≤ g.refillsAfter refills request := by
    unfold refillsAfter
    split
    · omega
    · have hused := h.used
      omega
  refine ⟨⟨hrefilled, hfits, ?_⟩, ?_, ⟨hdata.trans hbuffer, fun hzero => by omega⟩⟩
  · show (g.answer hash request).1 = leBytesToNat (((hash^[g.refillsAfter refills request]
      initial).toList.drop (g.checkData hash request.width).index).take request.width)
    rw [← hbuffer]
    exact hvalue
  · unfold Continues Blake2Generator.reading refillsAfter checkData
    dsimp only
    -- a refill skips what is left of the buffer, which for a byte is nothing
    by_cases hrefill : g.index + request.width > blakeGenDataLen
    · rw [if_pos hrefill, if_pos hrefill]
      refine Or.inr ⟨rfl, rfl, ?_⟩
      have hle := g.index_le
      cases request with
      | byte =>
        have hone : Request.byte.width = 1 := rfl
        exact Or.inl (by omega)
      | u32 => exact Or.inr ⟨rfl, hrefill⟩
    · rw [if_neg hrefill, if_neg hrefill]
      exact Or.inl ⟨rfl, rfl⟩

/-! ## Sequences of requests -/

/-- The readings of the requests in turn. -/
def readings (g : Blake2Generator) (refills : ℕ) : List Request → List Reading
  | [] => []
  | request :: rest => g.reading hash refills request ::
      readings (g.answer hash request).2 (g.refillsAfter refills request) rest

lemma serveAll_counted (g : Blake2Generator) (refills : ℕ) (requests : List Request) :
    (g.counted refills).serveAll hash requests = some (g.readings hash refills requests) := by
  induction requests generalizing g refills with
  | nil => rfl
  | cons request rest ih =>
    unfold Counted.serveAll
    rw [serve_counted, Option.bind_eq_bind, Option.bind_some]
    dsimp only
    rw [ih]
    rfl

lemma map_request_readings (g : Blake2Generator) (refills : ℕ) (requests : List Request) :
    (g.readings hash refills requests).map Reading.request = requests := by
  induction requests generalizing g refills with
  | nil => rfl
  | cons request rest ih => exact congrArg (request :: ·) (ih _ _)

lemma map_value_readings (g : Blake2Generator) (refills : ℕ) (requests : List Request) :
    (g.readings hash refills requests).map Reading.value = g.answers hash requests := by
  induction requests generalizing g refills with
  | nil => rfl
  | cons request rest ih => exact congrArg ((g.answer hash request).1 :: ·) (ih _ _)

/-- `next` goes on where `reading` ended. -/
def Follows (reading next : Reading) : Prop := Continues reading.refills reading.stop next

/-- A run from a reached generator. -/
lemma Reached.readings {initial : Vector U8 blakeGenDataLen} {g : Blake2Generator} {refills : ℕ}
    (h : Reached hash initial g refills) (requests : List Request) :
    (∀ reading ∈ g.readings hash refills requests, IsReading hash initial reading) ∧
      (∀ reading ∈ (g.readings hash refills requests).head?, Continues refills g.index reading) ∧
      (g.readings hash refills requests).IsChain Follows := by
  induction requests generalizing g refills with
  | nil =>
    refine ⟨?_, ?_, .nil⟩
    · intro reading hreading
      cases hreading
    · intro reading hreading
      cases hreading
  | cons request rest ih =>
    obtain ⟨hreading, hcontinues, hnext⟩ := h.reading hash request
    obtain ⟨hrest, hhead, hchain⟩ := ih hnext
    refine ⟨?_, ?_, ?_⟩
    · intro reading hmem
      cases List.mem_cons.mp hmem with
      | inl heq =>
        rw [heq]
        exact hreading
      | inr hmem => exact hrest reading hmem
    · intro reading hmem
      cases hmem
      exact hcontinues
    · apply hchain.cons
      intro next hmem
      show Continues _ (g.reading hash refills request).stop next
      rw [stop_reading]
      exact hhead next hmem

/-- The bytes of `reading` come before those of `next`. -/
def Before (reading next : Reading) : Prop :=
  reading.refills < next.refills ∨ reading.refills = next.refills ∧ reading.stop ≤ next.start

lemma Follows.before {reading next : Reading} (h : Follows reading next) : Before reading next := by
  cases h with
  | inl h => exact Or.inr ⟨h.1.symm, h.2.ge⟩
  | inr h => exact Or.inl (h.1 ▸ Nat.lt_succ_self _)

lemma Before.trans {first second third : Reading} (h : Before first second)
    (h' : Before second third) : Before first third := by
  have hstop : second.start ≤ second.stop := Nat.le_add_right _ _
  unfold Before at *
  omega

instance : Trans Before Before Before := ⟨Before.trans⟩

lemma toList_data_new (seed : List U8) (nonce : U32) :
    (new seed nonce).data.toList
      = seed.take 60 ++ List.replicate (60 - seed.length) 0 ++ toLeBytes nonce := by
  have hkey : (seed.take 60 ++ List.replicate (60 - seed.length) 0).length = 60 := by
    rw [List.length_append, List.length_take, List.length_replicate]
    omega
  apply List.ext_getElem
  · rw [Vector.length_toList, List.length_append, hkey]
    rfl
  · intro i hi hi'
    rw [Vector.getElem_toList]
    unfold new
    rw [Vector.getElem_ofFn]
    by_cases hlt : i < 60
    · rw [List.getElem_append_left (by omega)]
      refine (if_pos hlt).trans ?_
      show seed.getD i 0 = _
      by_cases hseed : i < seed.length
      · rw [List.getElem_append_left (by rw [List.length_take]; omega), List.getElem_take,
          List.getD_eq_getElem _ _ hseed]
      · rw [List.getElem_append_right (by rw [List.length_take]; omega), List.getElem_replicate,
          List.getD_eq_default _ _ (by omega)]
    · -- the last four bytes are the nonce
      rw [List.getElem_append_right (by omega)]
      refine (if_neg hlt).trans ?_
      have hlt : i < 64 := by
        rw [Vector.length_toList] at hi
        exact hi
      have hbyte : ∀ j < 4, ∀ h : j < (toLeBytes nonce).length,
          (nonce >>> (8 * j)).setWidth 8 = (toLeBytes nonce)[j] := by
        intro j hj h
        match j, hj with
        | 0, _ => exact congrArg (BitVec.setWidth 8) (BitVec.ushiftRight_zero nonce)
        | 1, _ => rfl
        | 2, _ => rfl
        | 3, _ => rfl
      have hlast := hbyte (i - 60) (by omega)
      rw [← hkey] at hlast
      rw [← hlast, hkey]
      rfl

/-- Any requests are served without leaving the buffer. Each answer is the little-endian value of
bytes that follow those of the answer before it, in the buffer after at least one refill: the
buffer after `j` refills is the `j`-fold hash of the initial block. No byte is read twice, and the
rest of a buffer is skipped only when it is too short for a `u32`. -/
theorem serveAll_new (seed : List U8) (nonce : U32) (requests : List Request) :
    ∃ readings, ((new seed nonce).counted 0).serveAll hash requests = some readings ∧
      readings.map Reading.request = requests ∧
      readings.map Reading.value = (new seed nonce).answers hash requests ∧
      (∀ reading ∈ readings, IsReading hash (new seed nonce).data reading) ∧
      (∀ reading ∈ readings.head?, reading.refills = 1 ∧ reading.start = 0) ∧
      readings.IsChain Follows ∧ readings.Pairwise Before ∧
      (new seed nonce).data.toList
        = seed.take 60 ++ List.replicate (60 - seed.length) 0 ++ toLeBytes nonce := by
  have hreached : Reached hash (new seed nonce).data (new seed nonce) 0 := ⟨rfl, fun _ => rfl⟩
  obtain ⟨hreadings, hhead, hchain⟩ := hreached.readings hash requests
  refine ⟨_, serveAll_counted hash _ 0 requests, map_request_readings hash _ 0 requests,
    map_value_readings hash _ 0 requests, hreadings, ?_, hchain, ?_, toList_data_new seed nonce⟩
  · intro reading hmem
    have hrefilled := (hreadings reading (List.mem_of_mem_head? hmem)).refilled
    cases hhead reading hmem with
    | inl h => omega
    | inr h => exact ⟨h.1, h.2.1⟩
  · exact List.isChain_iff_pairwise.mp (hchain.imp fun _ _ h => h.before)

end

end Blake2Generator

end RandomXSp1.Superscalar
