import RandomXSp1.Vm.Decode

/-!
# Runs of the machine

The instruction loop over a list of operations, and an iteration: it loads the registers from two
lines of the scratchpad, runs the instruction loop, reads the dataset and stores the registers
back.
-/

namespace RandomXSp1

/-! ## The instruction loop -/

/-- The operations of a generated program. -/
def programOps (bytes : List U128) : List Op :=
  decodeOps 0 (Vector.replicate 8 (-1)) (instructionWords bytes)

/-- A generated program with instructions of every group: sixteen of them, the last a branch, again
and again. -/
def mixedBytes : List U128 :=
  (List.replicate 17 [
    0x1001030210#64 ++ 0x010000#64,      -- IADD_RS r0, r1; IADD_M r2, [r3]
    0x0a0000054c#64 ++ 0x400100033e#64,  -- IMUL_M r3, [r0]; IMUL_RCP r5
    0x2001020190#64 ++ 0x01007c#64,      -- FADD_R f0, a1; FADD_M f1, [r2]
    0x03a6#64 ++ 0x18000502a1#64,        -- FSUB_M f2, [r5]; FSCAL_R f3
    0x10000301cc#64 ++ 0x0200ac#64,      -- FMUL_R e0, a2; FDIV_M e1, [r3]
    0x0378#64 ++ 0x02d0#64,              -- FSQRT_R e2; FSWAP_R f3
    0x08000406f0#64 ++ 0x05000100ef#64,  -- CFROUND r1; ISTORE [r6], r4
    0x04d6#64 ++ 0x0154#64]).flatten     -- INEG_R r1; CBRANCH r4

lemma length_mixedBytes : mixedBytes.length = programBytes := by
  rw [mixedBytes, List.length_flatten, List.map_replicate, List.sum_replicate]
  rfl

example : (programOps mixedBytes).take 16 =
    [.addShifted 0 1 0 0, .int .add 2 (.mem ⟨some 3, 0x10, .l1⟩),
      .int .mul 3 (.mem ⟨some 0, 0x40, .l1⟩), .mulRcp 5 ((randomxReciprocal 10).getD 0),
      .addF 0 (.reg 1), .addF 1 (.mem ⟨some 2, 0x20, .l1⟩), .subF 2 (.mem ⟨some 5, 0x18, .l2⟩),
      .scaleF 3, .mulE 0 2, .divE 1 ⟨some 3, 0x10, .l2⟩, .sqrtE 2, .swapF 3, .round 1 5,
      .store ⟨some 6, 8, .l2⟩ 4, .neg 1, .branch 4 0 0 (-1)] :=
  rfl

lemma length_instructionWords (bytes : List U128) :
    (instructionWords bytes).length = 2 * (bytes.length - 8) := by
  unfold instructionWords
  rw [List.length_flatMap, ← List.length_drop]
  generalize bytes.drop 8 = rest
  induction rest with
  | nil => rfl
  | cons word rest ih =>
    rw [List.map_cons, List.sum_cons, ih, List.length_cons]
    show 2 + 2 * rest.length = 2 * (rest.length + 1)
    omega

lemma length_programOps {bytes : List U128} (h : bytes.length = programBytes) :
    (programOps bytes).length = programSize := by
  unfold programOps
  rw [length_decodeOps, length_instructionWords, h]
  rfl

/-- Lists related entry by entry are related at each index. -/
lemma rel_getElem?_of_forall₂ {α β : Type*} {R : α → β → Prop} {l : List α} {l' : List β}
    (h : List.Forall₂ R l l') (k : ℕ) : Option.Rel R l[k]? l'[k]? := by
  induction h generalizing k with
  | nil => exact .none
  | cons hab _ ih =>
    cases k with
    | zero => exact .some hab
    | succ k => exact ih k

lemma length_genProgramAes4rx4 (seed : Aes.State) :
    (Aes.genProgramAes4rx4 seed programBytes).length = programBytes :=
  Aes.length_genProgramLoop (show programBytes = 0 + 4 * 34 from rfl) seed

namespace Machine

def inLoop (m : Machine) : Bool := m.pc < programSize

/-- The operation at the counter. -/
def fetch (program : List Op) (m : Machine) : Option Op :=
  if 0 ≤ m.pc then program[m.pc.toNat]? else none

/-- The body of the instruction loop. -/
def dispatch (ops : LaneOps) (program : List Op) (m : Machine) : Option Machine := do
  let op ← m.fetch program
  let m ← op.exec ops m
  return { m with pc := m.pc + 1 }

/-! ## Lines of the scratchpad -/

/-- Eight consecutive words, by the index of the first. -/
structure Line where
  index : ℕ
  index_add_seven_lt : index + 7 < scratchpadWords

def Line.word (line : Line) (i : Fin 8) : Fin scratchpadWords :=
  ⟨line.index + i, by
    have hline := line.index_add_seven_lt
    have hi := i.isLt
    omega⟩

lemma lineAddress_add_seven_lt (address : U32) :
    ((address &&& scratchpadL3MaskU32) >>> 3).toNat + 7 < scratchpadWords := by
  have hle : (address &&& scratchpadL3MaskU32).toNat ≤ 0x1fffc0 := by
    rw [BitVec.toNat_and]
    exact Nat.and_le_right
  rw [BitVec.toNat_ushiftRight, Nat.shiftRight_eq_div_pow]
  unfold scratchpadWords
  omega

/-- The line an iteration derives from an address and half of a mixed word. -/
def lineOf (spAddr mix : U32) : Line :=
  ⟨(((spAddr ^^^ mix) &&& scratchpadL3MaskU32) >>> 3).toNat, lineAddress_add_seven_lt _⟩

/-! ## Iterations -/

/-- The word `i` of a line. -/
def wordAt (m : Machine) (line : Line) (i : Fin 8) : U64 := m.scratchpad[line.word i]

/-- A masked group-E value. -/
def maskE (m : Machine) (value : M128d) : M128d := m.toVm.maskRegisterExponentMantissa value

/-- The registers an iteration starts from. -/
def loadRegisters (m : Machine) (line0 line1 : Line) : Machine :=
  { m with
    r := Vector.ofFn fun i => m.r[i] ^^^ m.wordAt line0 i
    f := Vector.ofFn fun i : Fin 4 => lanesOfWord (m.wordAt line1 (i.castAdd 4))
    e := Vector.ofFn fun i : Fin 4 => m.maskE (lanesOfWord (m.wordAt line1 (i.natAdd 4))) }

/-- The positions of the lanes of a register in a line. -/
def lowWord (i : Fin 4) : Fin 8 := ⟨2 * i, by omega⟩
def highWord (i : Fin 4) : Fin 8 := ⟨2 * i + 1, by omega⟩

def storeIntegers (line : Line) (r : Vector U64 8) (scratchpad : Vector U64 scratchpadWords) :
    Vector U64 scratchpadWords :=
  (List.finRange 8).foldl (fun scratchpad (i : Fin 8) => scratchpad.set (line.word i) r[i])
    scratchpad

def storeFloats (line : Line) (f : Vector M128d 4) (scratchpad : Vector U64 scratchpadWords) :
    Vector U64 scratchpadWords :=
  (List.finRange 4).foldl (fun scratchpad (i : Fin 4) =>
    (scratchpad.set (line.word (lowWord i)) f[i].low).set (line.word (highWord i)) f[i].high)
    scratchpad

/-- The registers an iteration leaves in the scratchpad; the lines may overlap. -/
def storeRegisters (m : Machine) (line0 line1 : Line) : Machine :=
  let f := Vector.zipWith M128d.xor m.f m.e
  { m with
    f := f
    scratchpad := storeFloats line0 f (storeIntegers line1 m.r m.scratchpad) }

section
variable (readReg : Vector (Fin 8) 4)

def enterLoop (m : Machine) (line0 line1 : Line) : Machine :=
  { m.loadRegisters line0 line1 with pc := 0 }

def leaveLoop (m : Machine) (line0 line1 : Line) : Option Machine := do
  let mx := (m.mx ^^^ (m.r[readReg[(2 : Fin 4)]] ^^^ m.r[readReg[(3 : Fin 4)]])) &&& cacheLineAlignMask
  let r ← m.mem.datasetRead (m.datasetOffset + m.ma) m.r
  return { m with r, mx := m.ma, ma := mx }.storeRegisters line0 line1

/-- The lines that an iteration reads, by the word that mixes two registers. -/
def linesOf (state : Machine × U32 × U32) : Line × Line :=
  let spMix := state.1.r[readReg[(0 : Fin 4)]] ^^^ state.1.r[readReg[(1 : Fin 4)]]
  (lineOf state.2.1 (spMix.setWidth 32), lineOf state.2.2 ((spMix >>> 32).setWidth 32))

variable (ops : LaneOps) (rounds : ℕ) (program : List Op)

/-- One iteration on two lines. -/
def iterationOn (line0 line1 : Line) (m : Machine) : Option Machine := do
  let m ← whileLoop inLoop (dispatch ops program) rounds (m.enterLoop line0 line1)
  m.leaveLoop readReg line0 line1

/-- One iteration, on the machine and the two addresses. -/
def iteration (state : Machine × U32 × U32) : Option (Machine × U32 × U32) :=
  let lines := linesOf readReg state
  (iterationOn readReg ops rounds program lines.1 lines.2 state.1).map fun m => (m, 0, 0)

/-- The first `count` iterations. -/
def iterations (m : Machine) (count : ℕ) : Option (Machine × U32 × U32) :=
  (List.range count).foldlM (fun state _ => iteration readReg ops rounds program state)
    (m, m.mx.setWidth 32, m.ma.setWidth 32)

end

/-- The machine at the start of a run. -/
def initVm (m : Machine) (entropy : Vector U64 16) : Machine :=
  let vm := m.toVm.initVm entropy
  { m with
    a := vm.a
    ma := vm.ma
    mx := vm.mx
    readReg := vm.readReg
    datasetOffset := vm.datasetOffset
    eMask := vm.eMask
    r := vm.r }

lemma toVm_initVm (m : Machine) (entropy : Vector U64 16) :
    (m.initVm entropy).toVm = m.toVm.initVm entropy := rfl

/-- The registers that `init_vm` selects. -/
def readRegOf (entropy : Vector U64 16) : Vector (Fin 8) 4 :=
  let addressReg := entropy[(12 : Fin 16)].toNat
  #v[⟨addressReg % 2, by omega⟩, ⟨2 + addressReg / 2 % 2, by omega⟩,
    ⟨4 + addressReg / 4 % 2, by omega⟩, ⟨6 + addressReg / 8 % 2, by omega⟩]

lemma readReg_initVm (m : Machine) (entropy : Vector U64 16) :
    (m.initVm entropy).readReg = (readRegOf entropy).map Fin.val := by
  simp [initVm, Vm.initVm, readRegOf]

section
variable (ops : LaneOps) (rounds : ℕ)

/-- A run from a seed. -/
def run (m : Machine) (seed : Aes.State) : Option Machine := do
  let bytes := Aes.genProgramAes4rx4 seed programBytes
  let (m, _) ← iterations (readRegOf (entropyOf bytes)) ops rounds (programOps bytes)
    (m.initVm (entropyOf bytes)) programIterations
  return m

end

/-! ## What a run leaves unchanged -/

section
variable {ops : LaneOps} {rounds : ℕ} {program : List Op} {readReg : Vector (Fin 8) 4}

/-- A dispatch fetches an operation, performs it and advances the counter. -/
lemma dispatch_eq_some_iff {m m' : Machine} :
    dispatch ops program m = some m' ↔
      ∃ op m₁, m.fetch program = some op ∧ op.exec ops m = some m₁ ∧
        m' = { m₁ with pc := m₁.pc + 1 } := by
  constructor
  · intro h
    obtain ⟨op, hop, hrest⟩ := Option.bind_eq_some_iff.mp h
    obtain ⟨m₁, hexec, hm'⟩ := Option.bind_eq_some_iff.mp hrest
    exact ⟨op, m₁, hop, hexec, (Option.some.inj hm').symm⟩
  · rintro ⟨op, m₁, hop, hexec, rfl⟩
    unfold dispatch
    rw [hop]
    show Option.bind (op.exec ops m) _ = _
    rw [hexec]
    rfl

lemma sameConfiguration_of_dispatch {m m' : Machine} (h : dispatch ops program m = some m') :
    m.SameConfiguration m' := by
  obtain ⟨op, m₁, -, hexec, rfl⟩ := dispatch_eq_some_iff.mp h
  have hsame := Op.sameConfiguration_of_exec hexec
  exact ⟨⟨hsame.a, hsame.eMask, hsame.readReg, hsame.mem, hsame.datasetOffset⟩, hsame.mx, hsame.ma⟩

lemma sameConfiguration_of_steps {m m' : Machine} {l : List Machine}
    (h : Steps inLoop (dispatch ops program) m l m') : m.SameConfiguration m' := by
  apply h.invariant (P := m.SameConfiguration)
  · intro m₁ m₂ _ hstep hsame
    exact hsame.trans (sameConfiguration_of_dispatch hstep)
  · exact ⟨⟨rfl, rfl, rfl, rfl, rfl⟩, rfl, rfl⟩

/-- An iteration runs its instruction loop between loading and storing the registers. -/
lemma iterationOn_eq_some {m m' : Machine} {line0 line1 : Line}
    (h : iterationOn readReg ops rounds program line0 line1 m = some m') :
    ∃ m₁, whileLoop inLoop (dispatch ops program) rounds (m.enterLoop line0 line1) = some m₁ ∧
      m₁.leaveLoop readReg line0 line1 = some m' :=
  Option.bind_eq_some_iff.mp h

/-- After the instruction loop `ma` is what `mx` becomes, and the masked `mx` becomes `ma`. -/
lemma leaveLoop_eq_some {m m' : Machine} {line0 line1 : Line}
    (h : m.leaveLoop readReg line0 line1 = some m') :
    m.SameSetup m' ∧ m'.mx = m.ma ∧ ∃ word, m'.ma = word &&& cacheLineAlignMask := by
  obtain ⟨r, -, hm'⟩ := Option.bind_eq_some_iff.mp h
  obtain rfl := Option.some.inj hm'
  exact ⟨⟨rfl, rfl, rfl, rfl, rfl⟩, rfl, _, rfl⟩

lemma sameSetup_of_iteration {state state' : Machine × U32 × U32}
    (h : iteration readReg ops rounds program state = some state') :
    state.1.SameSetup state'.1 := by
  obtain ⟨m', hm', rfl⟩ := Option.map_eq_some_iff.mp h
  obtain ⟨m₁, hloop, hleave⟩ := iterationOn_eq_some hm'
  have hsame := sameConfiguration_of_steps (exists_steps_of_whileLoop hloop).1
  have hsetup : state.1.SameSetup m₁ :=
    ⟨hsame.a, hsame.eMask, hsame.readReg, hsame.mem, hsame.datasetOffset⟩
  exact hsetup.trans (leaveLoop_eq_some hleave).1

lemma sameSetup_of_iterations {m : Machine} {count : ℕ} {state : Machine × U32 × U32}
    (h : iterations readReg ops rounds program m count = some state) : m.SameSetup state.1 := by
  apply foldlM_preserves (P := fun state : Machine × U32 × U32 => m.SameSetup state.1) _ _ h
  · intro state _ state' hsame hstep
    exact hsame.trans (sameSetup_of_iteration hstep)
  · exact ⟨rfl, rfl, rfl, rfl, rfl⟩

end

/-- A run returns the machine after its last iteration. -/
lemma run_eq_some {ops : LaneOps} {rounds : ℕ} {m m' : Machine} {seed : Aes.State}
    (h : run ops rounds m seed = some m') :
    let bytes := Aes.genProgramAes4rx4 seed programBytes
    ∃ spAddrs, iterations (readRegOf (entropyOf bytes)) ops rounds (programOps bytes)
      (m.initVm (entropyOf bytes)) programIterations = some (m', spAddrs) := by
  unfold run at h
  dsimp only at h ⊢
  obtain ⟨state, hstate, hm'⟩ := Option.bind_eq_some_iff.mp h
  obtain rfl := Option.some.inj hm'
  exact ⟨state.2, hstate⟩

/-! ## The addresses an iteration does not read -/

/-- The machine with other memory registers; the instruction loop does not read them. -/
def withMemReg (mx ma : U64) (m : Machine) : Machine := { m with mx, ma }

section
variable {ops : LaneOps} {rounds : ℕ} {program : List Op} (mx ma : U64)

lemma exec_withMemReg (op : Op) (m : Machine) :
    op.exec ops (m.withMemReg mx ma) = (op.exec ops m).map (withMemReg mx ma) := by
  cases op
  case addF | subF | mulE | divE | sqrtE =>
    show Option.map _ _ = Option.map _ (Option.map _ _)
    rw [Option.map_map]
    rfl
  case mulRcp | branch =>
    show some (if _ then _ else _) = some (withMemReg mx ma (if _ then _ else _))
    rw [apply_ite (withMemReg mx ma)]
    rfl
  all_goals rfl

lemma dispatch_withMemReg (m : Machine) :
    dispatch ops program (m.withMemReg mx ma)
      = (dispatch ops program m).map (withMemReg mx ma) := by
  show ((m.fetch program).bind fun op => _) = _
  unfold dispatch
  cases m.fetch program with
  | none => rfl
  | some op =>
    rw [Option.bind_some, exec_withMemReg]
    show _ = Option.map _ ((op.exec ops m).bind _)
    cases op.exec ops m <;> rfl

lemma loop_withMemReg (m : Machine) :
    whileLoop inLoop (dispatch ops program) rounds (m.withMemReg mx ma)
      = (whileLoop inLoop (dispatch ops program) rounds m).map (withMemReg mx ma) :=
  whileLoop_map (withMemReg mx ma) (fun _ => rfl) (fun m _ => dispatch_withMemReg mx ma m) rounds m

end

end Machine

end RandomXSp1
