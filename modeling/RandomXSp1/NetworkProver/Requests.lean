import RandomXSp1.Audit.Monero

/-!
# Proof requests and their records

`prove_or_resume` of `network-prover/src/main.rs`, over any number of runs of the client on one
set of output paths. A run can fail or be killed anywhere, also in the middle of a write, and the
network may accept a request whose answer never arrives. So the client is a step relation on the
files, the requests that the network accepted, and where the current process is. The SP1 SDK is a
parameter. `validate_input` passes or fails on a constant, before any of this.
-/

namespace RandomXSp1.NetworkProver

open Audit (encodeHex)

/-- `context`: the text replaces what failed. -/
def context {α : Type} (value : Option α) (error : String) : Except String α :=
  match value with
  | some a => .ok a
  | none => .error error

/-! ## Text -/

/-- `char::is_whitespace`. -/
def isWhitespace (c : Char) : Bool :=
  let n := c.toNat
  (0x09 ≤ n && n ≤ 0x0d) || n = 0x20 || n = 0x85 || n = 0xa0 || n = 0x1680 ||
    (0x2000 ≤ n && n ≤ 0x200a) || n = 0x2028 || n = 0x2029 || n = 0x202f || n = 0x205f || n = 0x3000

/-- `str::trim`. -/
def trim (value : Str) : Str := (value.rdropWhile isWhitespace).dropWhile isWhitespace

/-- A digit of `str::parse`, which fails on overflow. -/
def pushDigit (bound n : ℕ) (c : Char) : Option ℕ := do
  guard ('0' ≤ c ∧ c ≤ '9')
  let n := 10 * n + (c.toNat - '0'.toNat)
  guard (n < bound)
  return n

/-- `str::parse` at an unsigned type with the given number of values. -/
def parseUnsigned (bound : ℕ) (value : Str) : Option ℕ :=
  let digits := match value with
    | '+' :: digits => digits
    | digits => digits
  if digits = [] then none else digits.foldlM (pushDigit bound) 0

def parseU64 (value : Str) (name : String) : Except String U64 :=
  context ((parseUnsigned (2 ^ 64) value).map (BitVec.ofNat 64))
    s!"parsing {name}: {String.ofList value}"

def proveWei : ℕ := 1000000000000000000

/-- `{whole}.{fractional:018}`. -/
def formatProve (wei : U128) : String :=
  let fractional := toString (wei.toNat % proveWei)
  s!"{wei.toNat / proveWei}." ++ "".pushn '0' (18 - fractional.length) ++ fractional

/-! ## Quotes -/

structure AuctionParams where
  maxPricePerPgu : Str
  baseFee : Str
  tickSize : U64

/-- What the RPC calls of `query_quote` return; the parameters need not be those of an auction. -/
structure RpcReplies where
  balance : Str
  params : Option AuctionParams

/-- A quote, less the market price, which is only printed. -/
structure Quote where
  balanceWei : U128
  baseFee : U64
  rawPrice : U64
  tickSize : U64
  sdkPriceCap : U64
  costCap : U128

def saturatingMul (a b : U64) : U64 :=
  if a.toNat * b.toNat < 2 ^ 64 then a * b else BitVec.allOnes 64

def checkedAdd (a b : U128) : Option U128 :=
  if a.toNat + b.toNat < 2 ^ 128 then some (a + b) else none

def alignToTick (value tick : U64) : U64 := if tick ≤ 1 then value else value - value % tick

def queryQuote (replies : RpcReplies) (pguLimit : U64) : Except String Quote := do
  let balanceWei ← context ((parseUnsigned (2 ^ 128) replies.balance).map (BitVec.ofNat 128))
    "requester balance does not fit u128"
  let params ← context replies.params "mainnet RPC did not return auction parameters"
  let rawPrice ← parseU64 params.maxPricePerPgu "max price per PGU"
  let sdkPriceCap := alignToTick (saturatingMul rawPrice 120 / 100) params.tickSize
  let baseFee ← parseU64 params.baseFee "Groth16 base fee"
  let costCap ← context
    (checkedAdd (baseFee.setWidth 128) (sdkPriceCap.setWidth 128 * pguLimit.setWidth 128))
    "quote cap overflow"
  return { balanceWei, baseFee, rawPrice, tickSize := params.tickSize, sdkPriceCap, costCap }

/-! ## The SDK -/

/-- What the client uses of the SP1 SDK and of `sha2`. Request IDs and verifying keys are printed
without whitespace, and `B256::from_str` reads a printed ID, but no beginning of it. -/
structure Sdk where
  Id : Type
  Vk : Type
  Proof : Type
  sha256 : List U8 → List U8
  /-- `setup`, up to the verifying key. -/
  setup : List U8 → Vk
  bytes32 : Vk → Str
  bytes32_visible : ∀ vk, ∀ c ∈ bytes32 vk, isWhitespace c = false
  displayId : Id → Str
  displayId_visible : ∀ id, ∀ c ∈ displayId id, isWhitespace c = false
  parseId : Str → Option Id
  parseId_displayId : ∀ id, parseId (displayId id) = some id
  parseId_begin : ∀ id text, text <+: displayId id → text ≠ displayId id → parseId text = none
  publicValues : Proof → List U8
  verify : Vk → Proof → Bool
  /-- What `save` writes. -/
  saved : Proof → List U8

/-! ## Jobs -/

/-- The block to prove, the requester and the output paths, as they are printed. -/
structure Job where
  seed : List U8
  blob : List U8
  expected : Vector U8 32
  cycleLimit : U64
  gasLimit : U64
  requestTimeoutSeconds : U64
  address : String
  requestIdPath : String
  proofPath : String
  vkeyPath : String

structure Files where
  requestId : Option (List U8)
  proof : Option (List U8)
  vkey : Option (List U8)

/-- A request as the network accepts it, with the quote it was made on. -/
structure Request (sdk : Sdk) where
  id : sdk.Id
  elf : List U8
  stdin : List (List U8)
  cycleLimit : U64
  gasLimit : U64
  timeout : U64
  maxPricePerPgu : U64
  quote : Quote

section
variable (sdk : Sdk)

def approvedElfSha256 : String :=
  "2f3d772c9dcf6e077d254d934d092d242bb1ed4682f0a1ce64d980fa023cd79a"

def validateElf (elf : List U8) : Except String Unit :=
  let actual := String.ofList (encodeHex (sdk.sha256 elf))
  if actual ≠ approvedElfSha256 then
    .error s!"ELF SHA-256 mismatch: expected {approvedElfSha256}, got {actual}"
  else .ok ()

variable (job : Job)

/-- The two checks before a submission. -/
def checkOutputs (submit : Bool) (files : Files) : Except String Unit :=
  if submit ∧ files.requestId.isSome then
    .error ("refusing to submit a duplicate request because " ++
      s!"{job.requestIdPath} already exists; use resume")
  else if submit ∧ files.proof.isSome then
    .error s!"refusing to submit because proof output already exists: {job.proofPath}"
  else .ok ()

/-- The quote, which the balance has to cover before a submission. -/
def quoteFor (submit : Bool) (replies : RpcReplies) : Except String Quote := do
  let quote ← queryQuote replies job.gasLimit
  if submit ∧ quote.balanceWei < quote.costCap then
    .error (s!"requester {job.address} has {formatProve quote.balanceWei} PROVE " ++
      s!"but the request cap is {formatProve quote.costCap} PROVE")
  else .ok quote

def textOf (value : Str) : List U8 := utf8 (value ++ ['\n'])

/-- The contents of the file after `write_or_verify_text`. -/
def writeOrVerifyText (file : Option (List U8)) (path : String) (value : Str) (name : String) :
    Except String (List U8) :=
  match file with
  | some contents => do
    let existing ← context (fromUtf8 contents) s!"reading existing {name} from {path}"
    if trim existing ≠ value then
      .error s!"existing {name} in {path} does not match computed value"
    else .ok contents
  | none => .ok (textOf value)

def recordVkey (files : Files) (elf : List U8) : Except String (List U8) :=
  writeOrVerifyText files.vkey job.vkeyPath (sdk.bytes32 (sdk.setup elf)) "program vkey"

/-- The request ID of a file, for `resume`. -/
def readRequestId (files : Files) : Except String sdk.Id := do
  let value ← context (files.requestId.bind fromUtf8)
    s!"reading request ID from {job.requestIdPath}"
  context (sdk.parseId (trim value)) "parsing request ID"

/-- The checks of `verify_and_save`. -/
def checkProof (elf : List U8) (proof : sdk.Proof) : Except String Unit :=
  if sdk.publicValues proof ≠ job.expected.toList then
    .error (s!"proof public values mismatch: expected "
      ++ s!"{String.ofList (encodeHex job.expected.toList)}"
      ++ s!", got {String.ofList (encodeHex (sdk.publicValues proof))}")
  else if sdk.verify (sdk.setup elf) proof = false then
    .error "verifying downloaded Groth16 proof with SP1"
  else .ok ()

def newRequest (elf : List U8) (quote : Quote) (id : sdk.Id) : Request sdk where
  id := id
  elf := elf
  stdin := [job.seed, job.blob]
  cycleLimit := job.cycleLimit
  gasLimit := job.gasLimit
  timeout := job.requestTimeoutSeconds
  maxPricePerPgu := quote.sdkPriceCap
  quote := quote

/-! ## Steps -/

/-- Where the client is; `submit` tells `prove` from `resume`. -/
inductive Phase where
  | killed
  | returned (result : Except String Unit)
  | started (submit : Bool) (elf : List U8)
  | cleared (submit : Bool) (elf : List U8)
  | quoted (submit : Bool) (elf : List U8) (quote : Quote)
  | recorded (submit : Bool) (elf : List U8) (quote : Quote)
  | submitted (elf : List U8) (id : sdk.Id)
  | waiting (elf : List U8) (id : sdk.Id)
  | received (elf : List U8) (proof : sdk.Proof)

variable {sdk}

def Phase.isRunning : Phase sdk → Bool
  | killed | returned _ => false
  | _ => true

/-- The next phase, unless a check returned an error. -/
def Phase.after {α : Type} (result : Except String α) (next : α → Phase sdk) : Phase sdk :=
  match result with
  | .ok a => next a
  | .error error => returned (.error error)

/-- A request was accepted and its ID is not on file yet. -/
def Phase.unrecorded : Phase sdk → ℕ
  | submitted _ _ => 1
  | _ => 0

/-- The files, the requests the network accepted, the latest first, and how many of these the
client lost because it ended before it began to record their IDs. -/
structure State (sdk : Sdk) where
  files : Files
  requests : List (Request sdk)
  lost : ℕ
  phase : Phase sdk

def State.start (files : Files) : State sdk :=
  { files, requests := [], lost := 0, phase := .killed }

/-- One step of the client, of the network, or of what ends a run. -/
inductive Step (job : Job) : State sdk → State sdk → Prop
  | start {s : State sdk} (submit : Bool) (elf : List U8) (hphase : s.phase.isRunning = false) :
      Step job s { s with phase := .after (validateElf sdk elf) fun _ => .started submit elf }
  | checkOutputs {s : State sdk} (submit : Bool) (elf : List U8)
      (hphase : s.phase = .started submit elf) :
      Step job s
        { s with phase := .after (checkOutputs job submit s.files) fun _ => .cleared submit elf }
  | quote {s : State sdk} (submit : Bool) (elf : List U8) (replies : RpcReplies)
      (hphase : s.phase = .cleared submit elf) :
      Step job s { s with phase := .after (quoteFor job submit replies) (.quoted submit elf) }
  | recordVkey {s : State sdk} (submit : Bool) (elf : List U8) (quote : Quote) (contents : List U8)
      (hphase : s.phase = .quoted submit elf quote)
      (hwrite : recordVkey sdk job s.files elf = .ok contents) :
      Step job s
        { s with
          files := { s.files with vkey := some contents }
          phase := .recorded submit elf quote }
  | wrongVkey {s : State sdk} (submit : Bool) (elf : List U8) (quote : Quote) (error : String)
      (hphase : s.phase = .quoted submit elf quote)
      (hwrite : recordVkey sdk job s.files elf = .error error) :
      Step job s { s with phase := .returned (.error error) }
  -- `prove`
  | request {s : State sdk} (elf : List U8) (quote : Quote) (id : sdk.Id)
      (hphase : s.phase = .recorded true elf quote) :
      Step job s
        { s with requests := newRequest sdk job elf quote id :: s.requests
                 phase := .submitted elf id }
  | requestLost {s : State sdk} (elf : List U8) (quote : Quote) (id : sdk.Id)
      (hphase : s.phase = .recorded true elf quote) :
      Step job s
        { s with
          requests := newRequest sdk job elf quote id :: s.requests
          lost := s.lost + 1
          phase := .returned (.error "submitting Groth16 proof request") }
  | recordRequest {s : State sdk} (elf : List U8) (id : sdk.Id)
      (hphase : s.phase = .submitted elf id) :
      Step job s
        { s with
          files := { s.files with requestId := some (textOf (sdk.displayId id)) }
          phase := .waiting elf id }
  -- `resume`
  | readRequest {s : State sdk} (elf : List U8) (quote : Quote)
      (hphase : s.phase = .recorded false elf quote) :
      Step job s { s with phase := .after (readRequestId sdk job s.files) (.waiting elf) }
  -- both
  | receive {s : State sdk} (elf : List U8) (id : sdk.Id) (proof : sdk.Proof)
      (hphase : s.phase = .waiting elf id) :
      Step job s { s with phase := .received elf proof }
  | save {s : State sdk} (elf : List U8) (proof : sdk.Proof)
      (hphase : s.phase = .received elf proof) (hcheck : checkProof sdk job elf proof = .ok ()) :
      Step job s
        { s with
          files := { s.files with proof := some (sdk.saved proof) }
          phase := .returned (.ok ()) }
  | reject {s : State sdk} (elf : List U8) (proof : sdk.Proof) (error : String)
      (hphase : s.phase = .received elf proof)
      (hcheck : checkProof sdk job elf proof = .error error) :
      Step job s { s with phase := .returned (.error error) }
  -- the end of a run: a call that fails, a signal, and either of them during a write
  | fail {s : State sdk} (error : String) (hphase : s.phase.isRunning = true) :
      Step job s
        { s with lost := s.lost + s.phase.unrecorded, phase := .returned (.error error) }
  | kill {s : State sdk} (hphase : s.phase.isRunning = true) :
      Step job s { s with lost := s.lost + s.phase.unrecorded, phase := .killed }
  | killVkey {s : State sdk} (submit : Bool) (elf : List U8) (quote : Quote) (written : ℕ)
      (hphase : s.phase = .quoted submit elf quote) (hnone : s.files.vkey = none) :
      Step job s
        { s with
          files := { s.files with
            vkey := some ((textOf (sdk.bytes32 (sdk.setup elf))).take written) }
          phase := .killed }
  | killRequestId {s : State sdk} (elf : List U8) (id : sdk.Id) (written : ℕ)
      (hphase : s.phase = .submitted elf id) :
      Step job s
        { s with
          files := { s.files with requestId := some ((textOf (sdk.displayId id)).take written) }
          phase := .killed }
  | killProof {s : State sdk} (elf : List U8) (proof : sdk.Proof) (written : ℕ)
      (hphase : s.phase = .received elf proof) (hcheck : checkProof sdk job elf proof = .ok ()) :
      Step job s
        { s with
          files := { s.files with proof := some ((sdk.saved proof).take written) }
          phase := .killed }

/-- The states after any number of runs. -/
def Reachable (job : Job) (files : Files) (s : State sdk) : Prop :=
  Relation.ReflTransGen (Step job) (.start files) s

end

end RandomXSp1.NetworkProver
