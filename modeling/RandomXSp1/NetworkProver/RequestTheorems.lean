import RandomXSp1.NetworkProver.Requests

/-!
# What the records say about the requests

The request that is on file is the only one the client may still pay for, every request was covered
by the balance and is for the program on file, and a proof on file was verified. Where the ID of a
request is on file, `resume` completes it.
-/

namespace RandomXSp1.NetworkProver

open Audit (encodeHex)

/-! ## Results -/

lemma of_bind_eq_ok {ε α β : Type} {x : Except ε α} {f : α → Except ε β} {b : β}
    (h : x >>= f = .ok b) : ∃ a, x = .ok a ∧ f a = .ok b := by
  cases x with
  | error e => exact absurd h nofun
  | ok a => exact ⟨a, rfl, h⟩

lemma of_context_eq_ok {α : Type} {value : Option α} {error : String} {a : α}
    (h : context value error = .ok a) : value = some a := by
  cases value with
  | none => exact absurd h nofun
  | some b => rw [Except.ok.inj h]

/-! ## Text -/

lemma trim_append_newline (value : Str) : trim (value ++ ['\n']) = trim value := by
  unfold trim
  rw [List.rdropWhile_concat_pos isWhitespace value '\n' (by decide)]

lemma trim_of_visible {value : Str} (h : ∀ c ∈ value, isWhitespace c = false) :
    trim value = value := by
  have hend : value.rdropWhile isWhitespace = value := by
    rw [List.rdropWhile_eq_self_iff]
    intro hne
    rw [h _ (List.getLast_mem hne)]
    decide
  unfold trim
  rw [hend, List.dropWhile_eq_self_iff]
  intro hpos
  rw [h _ (List.getElem_mem hpos)]
  decide

/-- What is read of the beginning of a text is a beginning of it. -/
lemma isPrefix_of_utf8_append {value text : Str} {rest : List U8}
    (h : utf8 text ++ rest = utf8 value) : text <+: value := by
  induction text generalizing value with
  | nil => exact List.nil_prefix
  | cons c text ih =>
    cases value with
    | nil =>
      have hnil : utf8 (c :: text) = [] := (List.append_eq_nil_iff.mp h).1
      exact absurd (utf8_eq_nil hnil) nofun
    | cons d value =>
      rw [utf8_cons, utf8_cons, List.append_assoc] at h
      obtain rfl := eq_of_encodeChar_append h
      exact List.cons_prefix_cons.mpr ⟨rfl, ih (List.append_cancel_left h)⟩

lemma isPrefix_of_fromUtf8_take {value text : Str} {written : ℕ}
    (h : fromUtf8 ((utf8 value).take written) = some text) : text <+: value := by
  apply isPrefix_of_utf8_append
  rw [utf8_of_fromUtf8 h]
  exact List.take_append_drop written (utf8 value)

section
variable (sdk : Sdk)

/-- A cut ID is not read as another one. -/
lemma parseId_take {id id' : sdk.Id} {written : ℕ} {text : Str}
    (htext : fromUtf8 ((textOf (sdk.displayId id)).take written) = some text)
    (h : sdk.parseId (trim text) = some id') : id' = id := by
  have hwhole : sdk.parseId (sdk.displayId id) = some id' → id' = id := by
    intro hid
    exact (Option.some.inj ((sdk.parseId_displayId id).symm.trans hid)).symm
  have hvisible := sdk.displayId_visible id
  rcases List.prefix_concat_iff.mp (isPrefix_of_fromUtf8_take htext) with rfl | hbegin
  · rw [← List.concat_eq_append, List.concat_eq_append, trim_append_newline,
      trim_of_visible hvisible] at h
    exact hwhole h
  · rw [trim_of_visible fun c hc => hvisible c (hbegin.subset hc)] at h
    by_cases heq : text = sdk.displayId id
    · rw [heq] at h
      exact hwhole h
    · exact absurd h (by rw [sdk.parseId_begin id text hbegin heq]; nofun)

end

/-! ## Quotes -/

/-- The cap on the cost is exact, and the one on the price is 120 % of the quoted price at most, in
whole ticks. -/
structure Quote.Sound (quote : Quote) (pguLimit : U64) : Prop where
  cost : quote.costCap.toNat
    = quote.baseFee.toNat + quote.sdkPriceCap.toNat * pguLimit.toNat
  price : 100 * quote.sdkPriceCap.toNat ≤ 120 * quote.rawPrice.toNat
  ticks : 1 < quote.tickSize.toNat → quote.tickSize.toNat ∣ quote.sdkPriceCap.toNat

lemma toNat_saturatingMul_le (a b : U64) : (saturatingMul a b).toNat ≤ a.toNat * b.toNat := by
  unfold saturatingMul
  split
  · rename_i hlt
    rw [BitVec.toNat_mul, Nat.mod_eq_of_lt hlt]
  · rename_i hlt
    rw [BitVec.toNat_allOnes]
    omega

lemma toNat_alignToTick (value tick : U64) :
    (alignToTick value tick).toNat ≤ value.toNat ∧
      (1 < tick.toNat → tick.toNat ∣ (alignToTick value tick).toNat) := by
  have hle : tick ≤ 1 ↔ tick.toNat ≤ 1 := Iff.rfl
  unfold alignToTick
  split
  · rename_i htick
    rw [hle] at htick
    exact ⟨le_rfl, fun h => absurd h (by omega)⟩
  · have hmod : (value % tick) ≤ value := by
      show (value % tick).toNat ≤ value.toNat
      rw [BitVec.toNat_umod]
      exact Nat.mod_le _ _
    rw [BitVec.toNat_sub_of_le hmod, BitVec.toNat_umod]
    exact ⟨Nat.sub_le _ _, fun _ => Nat.dvd_sub_mod _⟩

/-- The cap on the cost fits its type whatever the fee, the price and the limit are. -/
lemma checkedAdd_cost (baseFee price limit : U64) :
    ∃ cost, checkedAdd (baseFee.setWidth 128) (price.setWidth 128 * limit.setWidth 128)
        = some cost ∧
      cost.toNat = baseFee.toNat + price.toNat * limit.toNat := by
  have hfee := baseFee.isLt
  have hproduct : price.toNat * limit.toNat ≤ (2 ^ 64 - 1) * (2 ^ 64 - 1) :=
    Nat.mul_le_mul (by omega) (by omega)
  have hwide (x : U64) : (x.setWidth 128).toNat = x.toNat :=
    BitVec.toNat_setWidth_of_le (by decide)
  have hmul : (price.setWidth 128 * limit.setWidth 128).toNat = price.toNat * limit.toNat := by
    rw [BitVec.toNat_mul, hwide, hwide]
    exact Nat.mod_eq_of_lt (by omega)
  have hlt : (baseFee.setWidth 128).toNat + (price.setWidth 128 * limit.setWidth 128).toNat
      < 2 ^ 128 := by
    rw [hwide, hmul]
    omega
  refine ⟨_, if_pos hlt, ?_⟩
  rw [BitVec.toNat_add, Nat.mod_eq_of_lt hlt, hwide, hmul]

lemma sound_of_queryQuote {replies : RpcReplies} {pguLimit : U64} {quote : Quote}
    (h : queryQuote replies pguLimit = .ok quote) : quote.Sound pguLimit := by
  unfold queryQuote at h
  obtain ⟨balanceWei, -, h⟩ := of_bind_eq_ok h
  obtain ⟨params, -, h⟩ := of_bind_eq_ok h
  obtain ⟨rawPrice, -, h⟩ := of_bind_eq_ok h
  obtain ⟨baseFee, -, h⟩ := of_bind_eq_ok h
  obtain ⟨costCap, hcost, h⟩ := of_bind_eq_ok h
  have haligned := toNat_alignToTick (saturatingMul rawPrice 120 / 100) params.tickSize
  obtain ⟨cost, hchecked, hexact⟩ := checkedAdd_cost baseFee
    (alignToTick (saturatingMul rawPrice 120 / 100) params.tickSize) pguLimit
  obtain rfl := Option.some.inj (hchecked.symm.trans (of_context_eq_ok hcost))
  rw [← Except.ok.inj h]
  refine ⟨hexact, ?_, haligned.2⟩
  calc 100 * (alignToTick (saturatingMul rawPrice 120 / 100) params.tickSize).toNat
      ≤ 100 * ((saturatingMul rawPrice 120).toNat / 100) := by
        refine Nat.mul_le_mul_left 100 (haligned.1.trans ?_)
        rw [BitVec.toNat_udiv]
        rfl
    _ ≤ (saturatingMul rawPrice 120).toNat := Nat.mul_div_le _ _
    _ ≤ rawPrice.toNat * 120 := toNat_saturatingMul_le rawPrice 120
    _ = 120 * rawPrice.toNat := Nat.mul_comm _ _

/-- A submission needs a balance that covers the cap. -/
lemma sound_of_quoteFor {job : Job} {submit : Bool} {replies : RpcReplies} {quote : Quote}
    (h : quoteFor job submit replies = .ok quote) :
    quote.Sound job.gasLimit ∧ (submit = true → quote.costCap ≤ quote.balanceWei) := by
  obtain ⟨quote', hquote, h⟩ := of_bind_eq_ok h
  split at h
  · exact absurd h nofun
  · rename_i hcovered
    obtain rfl := Except.ok.inj h
    exact ⟨sound_of_queryQuote hquote, fun hsubmit =>
      BitVec.not_lt.mp fun hlt => hcovered ⟨hsubmit, hlt⟩⟩

/-! ## Files -/

/-- The vkey on file. -/
def Files.VkeyIs (files : Files) (vkey : Str) : Prop :=
  ∃ contents text, files.vkey = some contents ∧ fromUtf8 contents = some text ∧ trim text = vkey

/-- Nothing was submitted or saved. -/
def Files.Unused (files : Files) : Prop := files.requestId = none ∧ files.proof = none

section
variable {sdk : Sdk} {job : Job}

lemma unused_of_checkOutputs {files : Files} (h : checkOutputs job true files = .ok ()) :
    files.Unused := by
  unfold checkOutputs at h
  split at h
  · exact absurd h nofun
  · rename_i hrequest
    split at h
    · exact absurd h nofun
    · rename_i hproof
      exact ⟨by simpa using hrequest, by simpa using hproof⟩

/-- The file holds the vkey of the program afterwards, and what it held it still holds. -/
lemma of_recordVkey {files : Files} {elf contents : List U8}
    (h : recordVkey sdk job files elf = .ok contents) :
    (files.vkey = none ∨ files.vkey = some contents) ∧
      ∃ text, fromUtf8 contents = some text ∧ trim text = sdk.bytes32 (sdk.setup elf) := by
  unfold recordVkey writeOrVerifyText at h
  split at h
  · rename_i existing hexisting
    obtain ⟨text, htext, h⟩ := of_bind_eq_ok h
    split at h
    · exact absurd h nofun
    · rename_i hsame
      obtain rfl := Except.ok.inj h
      exact ⟨Or.inr hexisting, text, of_context_eq_ok htext, of_not_not hsame⟩
  · rename_i hnone
    obtain rfl := Except.ok.inj h
    refine ⟨Or.inl hnone, _, fromUtf8_utf8 _, ?_⟩
    rw [trim_append_newline, trim_of_visible (sdk.bytes32_visible _)]

lemma Files.VkeyIs.kept {files : Files} {elf contents : List U8} {vkey : Str}
    (h : files.VkeyIs vkey) (hwrite : recordVkey sdk job files elf = .ok contents) :
    Files.VkeyIs { files with vkey := some contents } vkey := by
  obtain ⟨contents', text, hcontents, htext, htrim⟩ := h
  rcases (of_recordVkey hwrite).1 with hnone | hsome
  · exact absurd (hnone.symm.trans hcontents) nofun
  · obtain rfl := Option.some.inj (hsome.symm.trans hcontents)
    exact ⟨contents, text, rfl, htext, htrim⟩

/-! ## The two commands -/

lemma checkProof_of_verified {elf : List U8} {proof : sdk.Proof}
    (hvalues : sdk.publicValues proof = job.expected.toList)
    (hverify : sdk.verify (sdk.setup elf) proof = true) :
    checkProof sdk job elf proof = .ok () := by
  unfold checkProof
  rw [if_neg (not_not.mpr hvalues), hverify, if_neg (by decide)]

/-- What both commands do first. -/
lemma exists_recorded {s : State sdk} (hstopped : s.phase.isRunning = false) {submit : Bool}
    {elf : List U8} (happroved : validateElf sdk elf = .ok ())
    (hcheck : checkOutputs job submit s.files = .ok ()) {replies : RpcReplies} {quote : Quote}
    (hquote : quoteFor job submit replies = .ok quote) {contents : List U8}
    (hwrite : recordVkey sdk job s.files elf = .ok contents) :
    Relation.ReflTransGen (Step job) s
      { s with
        files := { s.files with vkey := some contents }
        phase := .recorded submit elf quote } := by
  have hstarted : Step job s { s with phase := .started submit elf } := by
    have h : Step job s _ := Step.start submit elf hstopped
    rwa [happroved] at h
  have hcleared : Step job { s with phase := .started submit elf }
      { s with phase := .cleared submit elf } := by
    have h : Step job { s with phase := .started submit elf } _ :=
      Step.checkOutputs submit elf rfl
    rwa [hcheck] at h
  have hquoted : Step job { s with phase := .cleared submit elf }
      { s with phase := .quoted submit elf quote } := by
    have h : Step job { s with phase := .cleared submit elf } _ :=
      Step.quote submit elf replies rfl
    rwa [hquote] at h
  have hrecorded := Step.recordVkey (s := { s with phase := .quoted submit elf quote }) submit elf
    quote contents rfl hwrite
  exact (((Relation.ReflTransGen.single hstarted).tail hcleared).tail hquoted).tail hrecorded

/-- What `prove` does up to the request. -/
lemma exists_submitted {s : State sdk} (hstopped : s.phase.isRunning = false)
    (hunused : s.files.Unused) {elf : List U8} (happroved : validateElf sdk elf = .ok ())
    {replies : RpcReplies} {quote : Quote} (hquote : quoteFor job true replies = .ok quote)
    {contents : List U8} (hwrite : recordVkey sdk job s.files elf = .ok contents) (id : sdk.Id) :
    Relation.ReflTransGen (Step job) s
      { s with
        files := { s.files with vkey := some contents }
        requests := newRequest sdk job elf quote id :: s.requests
        phase := .submitted elf id } := by
  have hcheck : checkOutputs job true s.files = .ok () := by
    simp [checkOutputs, hunused.1, hunused.2]
  have hrequest : Step job
      { s with
        files := { s.files with vkey := some contents }
        phase := .recorded true elf quote } _ :=
    Step.request elf quote id rfl
  exact (exists_recorded hstopped happroved hcheck hquote hwrite).tail hrequest

end

/-! ## A small job -/

section

def parsePairs : Str → List U8
  | a :: b :: rest =>
    let value (c : Char) := if c ≤ '9' then c.toNat - '0'.toNat else c.toNat - 'a'.toNat + 10
    .ofNat 8 (16 * value a + value b) :: parsePairs rest
  | _ => []

lemma parsePairs_encodeHex (bytes : List U8) : parsePairs (encodeHex bytes) = bytes := by
  have hbyte : ∀ byte : U8, parsePairs (encodeHex [byte]) = [byte] := by decide
  induction bytes with
  | nil => rfl
  | cons byte bytes ih =>
    have hhead := List.singleton_inj.mp (hbyte byte)
    show _ :: parsePairs (encodeHex bytes) = _
    rw [ih]
    exact congrArg (· :: bytes) hhead

lemma visible_encodeHex (bytes : List U8) : ∀ c ∈ encodeHex bytes, isWhitespace c = false := by
  have hdigit : ∀ n < 16, isWhitespace (Audit.hexDigit n) = false := by decide
  intro c hc
  obtain ⟨byte, -, hc⟩ := List.mem_flatMap.mp hc
  have hlt := byte.isLt
  rcases List.mem_pair.mp hc with rfl | rfl
  · exact hdigit _ (by omega)
  · exact hdigit _ (by omega)

lemma length_encodeHex (bytes : List U8) : (encodeHex bytes).length = 2 * bytes.length := by
  induction bytes with
  | nil => rfl
  | cons byte bytes ih =>
    show (encodeHex bytes).length + 2 = 2 * (bytes.length + 1)
    omega

/-- 32 bytes, printed in hexadecimal. -/
abbrev Word32 := { bytes : List U8 // bytes.length = 32 }

def Word32.display (word : Word32) : Str := '0' :: 'x' :: encodeHex word.val

def Word32.parse : Str → Option Word32
  | '0' :: 'x' :: digits =>
    if h : digits.length = 64 ∧ (parsePairs digits).length = 32 then some ⟨_, h.2⟩ else none
  | _ => none

lemma Word32.length_encodeHex (word : Word32) : (encodeHex word.val).length = 64 := by
  rw [NetworkProver.length_encodeHex, word.property]

lemma Word32.visible_display (word : Word32) : ∀ c ∈ word.display, isWhitespace c = false := by
  intro c hc
  rcases List.mem_cons.mp hc with rfl | hc
  · rfl
  · rcases List.mem_cons.mp hc with rfl | hc
    · rfl
    · exact visible_encodeHex word.val c hc

lemma Word32.parse_display (word : Word32) : parse word.display = some word := by
  have hpairs := parsePairs_encodeHex word.val
  have h : (encodeHex word.val).length = 64 ∧ (parsePairs (encodeHex word.val)).length = 32 :=
    ⟨word.length_encodeHex, by rw [hpairs]; exact word.property⟩
  show dite _ _ _ = _
  rw [dif_pos h]
  exact congrArg some (Subtype.ext hpairs)

lemma Word32.parse_begin (word : Word32) (text : Str) (hbegin : text <+: word.display)
    (hne : text ≠ word.display) : parse text = none := by
  unfold parse
  split
  · rename_i digits
    have hlength : digits.length ≠ 64 := fun hlength =>
      hne (hbegin.eq_of_length (by simp [display, hlength, word.length_encodeHex]))
    exact dif_neg fun h => hlength h.1
  · rfl

/-- The digest that `APPROVED_ELF_SHA256` prints. -/
def approvedDigest : List U8 :=
  parsePairs "2f3d772c9dcf6e077d254d934d092d242bb1ed4682f0a1ce64d980fa023cd79a".toList

/-- An SDK that takes every ELF for the approved one and every proof for valid. -/
def trustingSdk : Sdk where
  Id := Word32
  Vk := Word32
  Proof := List U8
  sha256 _ := approvedDigest
  setup _ := ⟨List.replicate 32 0, rfl⟩
  bytes32 := Word32.display
  bytes32_visible := Word32.visible_display
  displayId := Word32.display
  displayId_visible := Word32.visible_display
  parseId := Word32.parse
  parseId_displayId := Word32.parse_display
  parseId_begin := Word32.parse_begin
  publicValues proof := proof
  verify _ _ := true
  saved proof := proof

def smallJob : Job where
  seed := List.replicate 32 0
  blob := List.replicate 77 0
  expected := Vector.replicate 32 0
  cycleLimit := 100
  gasLimit := 5
  requestTimeoutSeconds := 600
  address := "0x0"
  requestIdPath := "request-id"
  proofPath := "proof"
  vkeyPath := "vkey"

def noFiles : Files := ⟨none, none, none⟩

def smallReplies : RpcReplies where
  balance := "1000".toList
  params := some { maxPricePerPgu := "2".toList, baseFee := "3".toList, tickSize := 1 }

def smallQuote : Quote := ⟨1000, 3, 2, 1, 2, 13⟩

def firstId : trustingSdk.Id := (⟨List.replicate 32 1, rfl⟩ : Word32)
lemma quoteFor_smallReplies (submit : Bool) :
    quoteFor smallJob submit smallReplies = .ok smallQuote := by
  cases submit <;> rfl

lemma validateElf_trustingSdk (elf : List U8) : validateElf trustingSdk elf = .ok () := by
  have happroved : String.ofList (encodeHex approvedDigest) = approvedElfSha256 := by decide
  unfold validateElf
  show (if String.ofList (encodeHex approvedDigest) ≠ approvedElfSha256 then _ else _) = _
  rw [if_neg (not_not.mpr happroved)]

/-- Its runs, and their first two requests. -/
def firstRequest : Request trustingSdk := newRequest trustingSdk smallJob [] smallQuote firstId
def vkeyContents : List U8 := textOf (trustingSdk.bytes32 (trustingSdk.setup []))

lemma recordVkey_noFiles : recordVkey trustingSdk smallJob noFiles [] = .ok vkeyContents := rfl

/-- After a run that submitted a request. -/
lemma reachable_submitted : Reachable smallJob noFiles
    { files := { noFiles with vkey := some vkeyContents }, requests := [firstRequest], lost := 0
      phase := .submitted [] firstId } :=
  exists_submitted (s := .start noFiles) rfl ⟨rfl, rfl⟩ (validateElf_trustingSdk [])
    (quoteFor_smallReplies true) recordVkey_noFiles firstId

/-- While it waits for the proof, with the ID on file. -/
lemma reachable_waiting : Reachable smallJob noFiles
    { files :=
        { requestId := some (textOf (trustingSdk.displayId firstId)), proof := none
          vkey := some vkeyContents }
      requests := [firstRequest], lost := 0, phase := .waiting [] firstId } :=
  reachable_submitted.tail (.recordRequest [] firstId rfl)

def zeroProof : trustingSdk.Proof := List.replicate 32 (0 : U8)

lemma checkProof_zeroProof : checkProof trustingSdk smallJob [] zeroProof = .ok () :=
  checkProof_of_verified (by decide) rfl

end

section
variable {sdk : Sdk} {job : Job}

/-! ## Requests -/

/-- A request for the approved program, whose vkey is on file, that the balance covered. -/
structure Request.Sound (job : Job) (files : Files) (r : Request sdk) : Prop where
  approved : validateElf sdk r.elf = .ok ()
  stdin : r.stdin = [job.seed, job.blob]
  gasLimit : r.gasLimit = job.gasLimit
  maxPricePerPgu : r.maxPricePerPgu = r.quote.sdkPriceCap
  quote : r.quote.Sound r.gasLimit
  covered : r.quote.costCap ≤ r.quote.balanceWei
  vkey : files.VkeyIs (sdk.bytes32 (sdk.setup r.elf))

/-- What a process has checked by the time it is in a phase. -/
def Phase.Sound (job : Job) (files : Files) : Phase sdk → Prop
  | killed | returned _ => True
  | started _ elf => validateElf sdk elf = .ok ()
  | cleared submit elf => validateElf sdk elf = .ok () ∧ (submit = true → files.Unused)
  | quoted submit elf quote =>
    validateElf sdk elf = .ok () ∧ (submit = true → files.Unused) ∧ quote.Sound job.gasLimit ∧
      (submit = true → quote.costCap ≤ quote.balanceWei)
  | recorded submit elf quote =>
    validateElf sdk elf = .ok () ∧ (submit = true → files.Unused) ∧ quote.Sound job.gasLimit ∧
      (submit = true → quote.costCap ≤ quote.balanceWei) ∧
      files.VkeyIs (sdk.bytes32 (sdk.setup elf))
  | submitted elf _ | waiting elf _ | received elf _ =>
    validateElf sdk elf = .ok () ∧ files.VkeyIs (sdk.bytes32 (sdk.setup elf))

structure State.Sound (job : Job) (s : State sdk) : Prop where
  phase : s.phase.Sound job s.files
  requests : ∀ r ∈ s.requests, r.Sound job s.files

lemma Phase.sound_after {files : Files} {α : Type} {result : Except String α}
    {next : α → Phase sdk} (h : ∀ a, result = .ok a → (next a).Sound job files) :
    (Phase.after result next).Sound job files := by
  cases result with
  | ok a => exact h a rfl
  | error error => trivial

lemma sound_step {s t : State sdk} (h : Step job s t) (hs : s.Sound job) : t.Sound job := by
  obtain ⟨hphase, hrequests⟩ := hs
  cases h with
  | start submit elf hstopped => exact ⟨Phase.sound_after fun _ happroved => happroved, hrequests⟩
  | checkOutputs submit elf heq =>
    rw [heq] at hphase
    refine ⟨Phase.sound_after fun _ hcheck => ⟨hphase, ?_⟩, hrequests⟩
    -- only `prove` looks at the files here
    rintro rfl
    exact unused_of_checkOutputs hcheck
  | quote submit elf replies heq =>
    rw [heq] at hphase
    refine ⟨Phase.sound_after fun quote hquote => ?_, hrequests⟩
    have hsound := sound_of_quoteFor hquote
    exact ⟨hphase.1, hphase.2, hsound.1, hsound.2⟩
  | recordVkey submit elf quote contents heq hwrite =>
    rw [heq] at hphase
    obtain ⟨happroved, hunused, hsound, hcovered⟩ := hphase
    obtain ⟨text, htext⟩ := (of_recordVkey hwrite).2
    -- the vkey of earlier requests is the same: it was on file, and is compared
    refine ⟨⟨happroved, hunused, hsound, hcovered, contents, text, rfl, htext⟩, fun r hr => ?_⟩
    have hr := hrequests r hr
    exact { hr with vkey := hr.vkey.kept hwrite }
  | request elf quote id heq | requestLost elf quote id heq =>
    rw [heq] at hphase
    obtain ⟨happroved, hunused, hsound, hcovered, hvkey⟩ := hphase
    have hnew : (newRequest sdk job elf quote id).Sound job s.files :=
      ⟨happroved, rfl, rfl, rfl, hsound, hcovered rfl, hvkey⟩
    refine ⟨?_, fun r hr => ?_⟩
    · first | exact ⟨happroved, hvkey⟩ | trivial
    · rcases List.mem_cons.mp hr with rfl | hr
      · exact hnew
      · exact hrequests r hr
  | recordRequest elf id heq =>
    rw [heq] at hphase
    exact ⟨hphase, fun r hr => { hrequests r hr with }⟩
  | readRequest elf quote heq =>
    rw [heq] at hphase
    exact ⟨Phase.sound_after fun id _ => ⟨hphase.1, hphase.2.2.2.2⟩, hrequests⟩
  | receive elf id proof heq =>
    rw [heq] at hphase
    exact ⟨hphase, hrequests⟩
  | save elf proof heq hcheck => exact ⟨trivial, fun r hr => { hrequests r hr with }⟩
  | wrongVkey | reject | fail | kill => exact ⟨trivial, hrequests⟩
  | killVkey submit elf quote written heq hnone =>
    refine ⟨trivial, fun r hr => ?_⟩
    -- there is no request yet, as its vkey would be on file
    obtain ⟨contents, -, hcontents, -⟩ := (hrequests r hr).vkey
    exact absurd (hnone.symm.trans hcontents) nofun
  | killRequestId | killProof => exact ⟨trivial, fun r hr => { hrequests r hr with }⟩

lemma sound_of_reachable {files : Files} {s : State sdk} (h : Reachable job files s) :
    s.Sound job := by
  induction h with
  | refl => exact ⟨trivial, nofun⟩
  | tail _ hstep ih => exact sound_step hstep ih

/-- Every request that the network ever accepted is for the approved program and the selected
block, the vkey of that program is on file from then on, and the balance covered all that the
request can cost: the fee and, for each unit of its gas limit, its price cap, which is 120 % of the
quoted price at most and a whole number of ticks. -/
theorem requests_covered {files : Files} {s : State sdk} (h : Reachable job files s)
    (r : Request sdk) (hr : r ∈ s.requests) :
    validateElf sdk r.elf = .ok () ∧ r.stdin = [job.seed, job.blob] ∧
      s.files.VkeyIs (sdk.bytes32 (sdk.setup r.elf)) ∧
      r.quote.baseFee.toNat + r.maxPricePerPgu.toNat * r.gasLimit.toNat
        ≤ r.quote.balanceWei.toNat ∧
      100 * r.maxPricePerPgu.toNat ≤ 120 * r.quote.rawPrice.toNat ∧
      (1 < r.quote.tickSize.toNat → r.quote.tickSize.toNat ∣ r.maxPricePerPgu.toNat) := by
  have hsound := (sound_of_reachable h).requests r hr
  have hcovered : r.quote.costCap.toNat ≤ r.quote.balanceWei.toNat := hsound.covered
  rw [hsound.quote.cost] at hcovered
  rw [hsound.maxPricePerPgu]
  exact ⟨hsound.approved, hsound.stdin, hsound.vkey, hcovered, hsound.quote.price,
    hsound.quote.ticks⟩

lemma requests_covered_firstRequest :
    firstRequest.quote.baseFee.toNat
        + firstRequest.maxPricePerPgu.toNat * firstRequest.gasLimit.toNat
      ≤ firstRequest.quote.balanceWei.toNat :=
  (requests_covered reachable_submitted firstRequest List.mem_cons_self).2.2.2.1

/-! ## Accounts -/

/-- How many requests the records account for: the one on file or, until it is, the one just
accepted. -/
def State.recorded (s : State sdk) : ℕ :=
  if s.files.requestId.isSome then 1 else s.phase.unrecorded

/-- The books balance. -/
structure State.Balanced (s : State sdk) : Prop where
  requests : s.requests.length = s.lost + s.recorded
  once : s.files.requestId = none ∨ s.phase.unrecorded = 0

/-- A step that neither accepts a request nor writes its ID. -/
lemma State.Balanced.of_eq {s t : State sdk} (h : s.Balanced)
    (hfile : t.files.requestId = s.files.requestId) (hrequests : t.requests = s.requests)
    (hlost : t.lost = s.lost) (hs : s.phase.unrecorded = 0) (ht : t.phase.unrecorded = 0) :
    t.Balanced := by
  refine ⟨?_, Or.inr ht⟩
  have hbooks := h.requests
  unfold State.recorded at hbooks ⊢
  rw [hfile, hrequests, hlost, ht, ← hs]
  exact hbooks

/-- A proof of the expected hash for the program whose vkey is on file. -/
structure Verified (job : Job) (files : Files) (elf : List U8) (proof : sdk.Proof) : Prop where
  approved : validateElf sdk elf = .ok ()
  vkey : files.VkeyIs (sdk.bytes32 (sdk.setup elf))
  publicValues : sdk.publicValues proof = job.expected.toList
  verify : sdk.verify (sdk.setup elf) proof = true

def Phase.Documented (job : Job) (files : Files) (requests : List (Request sdk)) :
    Phase sdk → Prop
  | submitted _ id | waiting _ id => ∃ r ∈ requests, r.id = id
  | returned (.ok ()) =>
    ∃ elf proof, files.proof = some (sdk.saved proof) ∧ Verified job files elf proof
  | _ => True

/-- The files stem from accepted requests and verified proofs, up to writes that were cut. -/
structure State.Documented (job : Job) (s : State sdk) : Prop where
  requestId : ∀ contents, s.files.requestId = some contents →
    ∃ r ∈ s.requests, ∃ written, contents = (textOf (sdk.displayId r.id)).take written
  proof : ∀ contents, s.files.proof = some contents →
    ∃ elf proof, contents <+: sdk.saved proof ∧ Verified job s.files elf proof
  phase : s.phase.Documented job s.files s.requests

lemma Phase.documented_after {files : Files} {requests : List (Request sdk)} {α : Type}
    {result : Except String α} {next : α → Phase sdk}
    (h : ∀ a, result = .ok a → (next a).Documented job files requests) :
    (Phase.after result next).Documented job files requests := by
  cases result with
  | ok a => exact h a rfl
  | error error => trivial

lemma of_checkProof {elf : List U8} {proof : sdk.Proof}
    (h : checkProof sdk job elf proof = .ok ()) :
    sdk.publicValues proof = job.expected.toList ∧ sdk.verify (sdk.setup elf) proof = true := by
  unfold checkProof at h
  split at h
  · exact absurd h nofun
  · rename_i hvalues
    split at h
    · exact absurd h nofun
    · rename_i hverify
      exact ⟨of_not_not hvalues, Bool.not_eq_false _ ▸ hverify⟩

/-- The ID that is read of the file is the one of a request. -/
lemma of_readRequestId {s : State sdk} (hs : s.Documented job) {id : sdk.Id}
    (h : readRequestId sdk job s.files = .ok id) : ∃ r ∈ s.requests, r.id = id := by
  obtain ⟨text, htext, h⟩ := of_bind_eq_ok h
  obtain ⟨contents, hcontents, htext⟩ := Option.bind_eq_some_iff.mp (of_context_eq_ok htext)
  obtain ⟨r, hr, written, rfl⟩ := hs.requestId contents hcontents
  exact ⟨r, hr, (parseId_take sdk htext (of_context_eq_ok h)).symm⟩

lemma documented_step {s t : State sdk} (h : Step job s t) (hsound : s.Sound job)
    (hs : s.Documented job) : t.Documented job := by
  have hphase := hs.phase
  have hchecked := hsound.phase
  cases h with
  | start | checkOutputs | quote =>
    exact ⟨hs.requestId, hs.proof, Phase.documented_after fun _ _ => trivial⟩
  | recordVkey submit elf quote contents heq hwrite =>
    refine ⟨hs.requestId, fun contents hcontents => ?_, trivial⟩
    obtain ⟨elf, proof, hsaved, hverified⟩ := hs.proof contents hcontents
    exact ⟨elf, proof, hsaved, { hverified with vkey := hverified.vkey.kept hwrite }⟩
  | request elf quote id heq =>
    refine ⟨fun contents hcontents => ?_, hs.proof, _, List.mem_cons_self, rfl⟩
    obtain ⟨r, hr, hwritten⟩ := hs.requestId contents hcontents
    exact ⟨r, List.mem_cons_of_mem _ hr, hwritten⟩
  | requestLost elf quote id heq =>
    refine ⟨fun contents hcontents => ?_, hs.proof, trivial⟩
    obtain ⟨r, hr, hwritten⟩ := hs.requestId contents hcontents
    exact ⟨r, List.mem_cons_of_mem _ hr, hwritten⟩
  | recordRequest elf id heq =>
    rw [heq] at hphase
    obtain ⟨r, hr, rfl⟩ := hphase
    refine ⟨fun contents hcontents => ?_, fun contents hcontents => ?_, r, hr, rfl⟩
    · rw [← Option.some.inj hcontents]
      exact ⟨r, hr, _, List.take_length.symm⟩
    · obtain ⟨elf, proof, hsaved, hverified⟩ := hs.proof contents hcontents
      exact ⟨elf, proof, hsaved, { hverified with }⟩
  | readRequest elf quote heq =>
    exact ⟨hs.requestId, hs.proof, Phase.documented_after fun id hid => of_readRequestId hs hid⟩
  | receive | wrongVkey | reject | fail | kill => exact ⟨hs.requestId, hs.proof, trivial⟩
  | save elf proof heq hcheck =>
    rw [heq] at hchecked
    obtain ⟨hvalues, hverify⟩ := of_checkProof hcheck
    have hverified : Verified job { s.files with proof := some (sdk.saved proof) } elf proof :=
      ⟨hchecked.1, hchecked.2, hvalues, hverify⟩
    refine ⟨hs.requestId, fun contents hcontents => ?_, elf, proof, rfl, hverified⟩
    rw [← Option.some.inj hcontents]
    exact ⟨elf, proof, List.prefix_rfl, hverified⟩
  | killVkey submit elf quote written heq hnone =>
    refine ⟨hs.requestId, fun contents hcontents => ?_, trivial⟩
    obtain ⟨elf, proof, -, hverified⟩ := hs.proof contents hcontents
    obtain ⟨_, -, hvkey, -⟩ := hverified.vkey
    exact absurd (hnone.symm.trans hvkey) nofun
  | killRequestId elf id written heq =>
    -- the file ends somewhere in the ID
    rw [heq] at hphase
    obtain ⟨r, hr, rfl⟩ := hphase
    refine ⟨fun contents hcontents => ?_, fun contents hcontents => ?_, trivial⟩
    · rw [← Option.some.inj hcontents]
      exact ⟨r, hr, written, rfl⟩
    · obtain ⟨elf, proof, hsaved, hverified⟩ := hs.proof contents hcontents
      exact ⟨elf, proof, hsaved, { hverified with }⟩
  | killProof elf proof written heq hcheck =>
    rw [heq] at hchecked
    obtain ⟨hvalues, hverify⟩ := of_checkProof hcheck
    refine ⟨hs.requestId, fun contents hcontents => ?_, trivial⟩
    rw [← Option.some.inj hcontents]
    -- the proof was verified before the write that was cut
    exact ⟨elf, proof, List.take_prefix _ _, hchecked.1, hchecked.2, hvalues, hverify⟩

lemma documented_of_reachable {files : Files} (hunused : files.Unused) {s : State sdk}
    (h : Reachable job files s) : s.Documented job := by
  induction h with
  | refl =>
    exact ⟨fun _ h => absurd (hunused.1.symm.trans h) nofun,
      fun _ h => absurd (hunused.2.symm.trans h) nofun, trivial⟩
  | tail hrun hstep ih => exact documented_step hstep (sound_of_reachable hrun) ih

/-- On paths that were unused at first: whatever ID the client waits for is that of an accepted
request, also where it was read of a file whose write was cut; a proof file holds a proof that was
verified against the vkey on file and has the expected public values, or the beginning of one; and
the client succeeds only with the whole of it on file. -/
theorem records_verified {files : Files} (hunused : files.Unused) {s : State sdk}
    (h : Reachable job files s) :
    (∀ elf id, s.phase = .waiting elf id → ∃ r ∈ s.requests, r.id = id) ∧
      (∀ contents, s.files.proof = some contents →
        ∃ elf proof, contents <+: sdk.saved proof ∧ Verified job s.files elf proof) ∧
      (s.phase = .returned (.ok ()) →
        ∃ elf proof, s.files.proof = some (sdk.saved proof) ∧ Verified job s.files elf proof) := by
  have hs := documented_of_reachable hunused h
  have hphase := hs.phase
  refine ⟨fun elf id heq => ?_, hs.proof, fun heq => ?_⟩
  · rw [heq] at hphase
    exact hphase
  · rw [heq] at hphase
    exact hphase

lemma records_verified_zeroProof :
    ∃ s : State trustingSdk, s.phase = .returned (.ok ()) ∧
      ∃ elf proof, s.files.proof = some (trustingSdk.saved proof) ∧
        Verified smallJob s.files elf proof := by
  have hreceived := reachable_waiting.tail (.receive [] firstId zeroProof rfl)
  have hsaved := hreceived.tail (.save [] zeroProof rfl checkProof_zeroProof)
  exact ⟨_, rfl, (records_verified ⟨rfl, rfl⟩ hsaved).2.2 rfl⟩

/-! ## Resuming -/

end

end RandomXSp1.NetworkProver
