import RandomXSp1.Superscalar.Generator
import RandomXSp1.Superscalar.Execute

/-!
# Generating superscalar programs

`ScProgram::generate` and what it calls, over an arbitrary generator. The rejection loops of
`create` are granted a number of rounds; every other loop of the source ends by itself and is
modelled without a bound. The program under construction is a list in program order.
-/

namespace RandomXSp1.Superscalar

open Draw (expect rejectWhile)

def randomxSuperscalarLatency : ℕ := 170
def cycleMapSize : ℕ := randomxSuperscalarLatency + 4
def superscalarMaxSize : ℕ := 3 * randomxSuperscalarLatency + 2
def lookForwardCycles : ℕ := 4
def maxThrowawayCount : ℕ := 256
def regNeedsDisplacementIx : ℕ := 5

/-! ## Execution ports -/

/-- For each cycle the occupation of the ports 0, 1 and 5. -/
abbrev PortBusy := Vector (Vector ExecutionPort 3) cycleMapSize

def scheduleUop (commit : Bool) (uop : ExecutionPort) (portBusy : PortBusy) (cycle : ℕ) :
    Option ℕ × PortBusy :=
  if h : cycle < cycleMapSize then
    let row := portBusy.get ⟨cycle, h⟩
    if uop.is .p5 && row[2] == .null then
      (some cycle, if commit then portBusy.set cycle (row.set 2 uop) else portBusy)
    else if uop.is .p0 && row[0] == .null then
      (some cycle, if commit then portBusy.set cycle (row.set 0 uop) else portBusy)
    else if uop.is .p1 && row[1] == .null then
      (some cycle, if commit then portBusy.set cycle (row.set 1 uop) else portBusy)
    else scheduleUop commit uop portBusy (cycle + 1)
  else (none, portBusy)
termination_by cycleMapSize - cycle

/-- The loop of `schedule_mop` for two micro-operations that must start together. -/
def scheduleUops (commit : Bool) (mop : ScMacroOp) (portBusy : PortBusy) (cycle : ℕ) :
    Option ℕ × PortBusy :=
  if cycle < cycleMapSize then
    let cycle1 := (scheduleUop false mop.uop1 portBusy cycle).1
    let cycle2 := (scheduleUop false mop.uop2 portBusy cycle).1
    match cycle1 with
    | some start =>
      if cycle1 = cycle2 then
        if commit then
          let portBusy := (scheduleUop true mop.uop1 portBusy start).2
          (cycle1, (scheduleUop true mop.uop2 portBusy start).2)
        else (cycle1, portBusy)
      else scheduleUops commit mop portBusy (cycle + 1)
    | none => scheduleUops commit mop portBusy (cycle + 1)
  else (none, portBusy)
termination_by cycleMapSize - cycle

def scheduleMop (commit : Bool) (mop : ScMacroOp) (portBusy : PortBusy)
    (cycleIn depCycle : ℕ) : Option ℕ × PortBusy :=
  let cycle := if mop.dependent then max cycleIn depCycle else cycleIn
  if mop.isEliminated then (some cycle, portBusy)
  else if mop.isSimple then scheduleUop commit mop.uop1 portBusy cycle
  else scheduleUops commit mop portBusy cycle

/-! ## Decode buffers -/

structure DecoderBuffer where
  index : ℕ
  counts : List ℕ
  deriving DecidableEq

def DecoderBuffer.size (buffer : DecoderBuffer) : ℕ := buffer.counts.length

def buffer484 : DecoderBuffer := { index := 0, counts := [4, 8, 4] }
def buffer7333 : DecoderBuffer := { index := 1, counts := [7, 3, 3, 3] }
def buffer3733 : DecoderBuffer := { index := 2, counts := [3, 7, 3, 3] }
def buffer493 : DecoderBuffer := { index := 3, counts := [4, 9, 3] }
def buffer4444 : DecoderBuffer := { index := 4, counts := [4, 4, 4, 4] }
def buffer3310 : DecoderBuffer := { index := 5, counts := [3, 3, 10] }

def decodeBuffers : List DecoderBuffer := [buffer484, buffer7333, buffer3733, buffer493]

section
variable {G : Type} (gen : Generator G)

/-- The current buffer is not read. -/
def DecoderBuffer.fetchNext (instr : ScInstr) (decodeCycle mulCount : ℕ) :
    Draw G DecoderBuffer := do
  if instr.info.op = .imulhR ∨ instr.info.op = .ismulhR then return buffer3310
  if mulCount < decodeCycle + 1 then return buffer4444
  if instr.info.op = .imulRcp then
    let byte ← gen.getByte
    return if byte &&& 1 = 1 then buffer484 else buffer493
  let ix ← gen.getByte
  expect decodeBuffers[(ix &&& 3).toNat]?

/-! ## Creating instructions -/

def slot3L : List ScInstrInfo := [isubR, ixorR, imulhR, ismulhR]
def slot4 : List ScInstrInfo := [irorC, iaddRs]
def slot7 : List ScInstrInfo := [ixorC7, iaddC7]
def slot8 : List ScInstrInfo := [ixorC8, iaddC8]
def slot9 : List ScInstrInfo := [ixorC9, iaddC9]
def slot10 : ScInstrInfo := imulRcp

def isZeroOrPowerOf2 (v : U32) : Bool := v &&& (v - 1) == 0

namespace ScInstr

/-- An instruction without registers, the common part of the arms of `create`. -/
def blank (info : ScInstrInfo) (opGroup : ScOpcode) : ScInstr where
  info := info
  dst := -1
  src := -1
  modV := 0
  imm32 := 0
  reciprocal := 0
  opGroup := opGroup
  canReuse := false
  groupParIsSource := true
  opGroupPar := 0

/-- `precomputeReciprocal` is the feature flag, `rounds` the grant of the rejection loops. -/
def create (precomputeReciprocal : Bool) (rounds : ℕ) (info : ScInstrInfo) : Draw G ScInstr :=
  match info.op with
  | .isubR => return blank info .iaddRs
  | .ixorR => return blank info .ixorR
  | .iaddRs => do
    let modV ← gen.getByte
    return { blank info .iaddRs with modV }
  | .imulR => return blank info .imulR
  | .irorC => do
    let imm32 ← rejectWhile (· == 0) (do return (← gen.getByte) &&& 63) rounds
    return { blank info .irorC with imm32 := imm32.setWidth 32 }
  | .iaddC7 | .iaddC8 | .iaddC9 => do
    let imm32 ← gen.getU32
    return { blank info .iaddC7 with imm32, groupParIsSource := false, opGroupPar := -1 }
  | .ixorC7 | .ixorC8 | .ixorC9 => do
    let imm32 ← gen.getU32
    return { blank info .ixorC7 with imm32, groupParIsSource := false, opGroupPar := -1 }
  | .imulhR => do
    let par ← gen.getU32
    return { blank info .imulhR with
      groupParIsSource := false, canReuse := true, opGroupPar := par.toInt }
  | .ismulhR => do
    let par ← gen.getU32
    return { blank info .ismulhR with
      groupParIsSource := false, canReuse := true, opGroupPar := par.toInt }
  | .imulRcp => do
    let imm32 ← rejectWhile isZeroOrPowerOf2 gen.getU32 rounds
    let reciprocal ← (if precomputeReciprocal then expect (randomxReciprocal (imm32.setWidth 64))
      else pure 0)
    return { blank info .imulRcp with imm32, reciprocal, opGroupPar := -1 }
  | .invalid | .count => throw .panic

def createForSlot (precomputeReciprocal : Bool) (rounds : ℕ) (slotSize fetchType : ℕ)
    (isLast : Bool) : Draw G ScInstr :=
  let create := create gen precomputeReciprocal rounds
  match slotSize with
  | 3 => do
    let byte ← gen.getByte
    if isLast then create (← expect slot3L[(byte &&& 3).toNat]?)
    else create (← expect slot3L[(byte &&& 1).toNat]?)
  | 4 => do
    if fetchType = 4 ∧ ¬isLast then create imulR
    else create (← expect slot4[((← gen.getByte) &&& 1).toNat]?)
  | 7 => do create (← expect slot7[((← gen.getByte) &&& 1).toNat]?)
  | 8 => do create (← expect slot8[((← gen.getByte) &&& 1).toNat]?)
  | 9 => do create (← expect slot9[((← gen.getByte) &&& 1).toNat]?)
  | 10 => create slot10
  | _ => throw .panic

end ScInstr

/-! ## Selecting registers -/

structure RegisterInfo where
  lastOpGroup : ScOpcode
  latency : ℕ
  lastOpPar : ℤ

def RegisterInfo.new : RegisterInfo := { latency := 0, lastOpGroup := .invalid, lastOpPar := -1 }

abbrev RegisterInfos := Vector RegisterInfo 8

namespace ScInstr

/-- The chosen register, `none` where the source returns `false`. -/
def selectRegister (available : List (Fin 8)) : Draw G (Option (Fin 8)) := do
  if available.isEmpty then return none
  let index ← (if available.length > 1 then do
      let draw ← gen.getU32
      pure (draw.toNat % available.length)
    else pure 0)
  return some (← expect available[index]?)

/-- The condition on a destination register. -/
def isAvailable (instr : ScInstr) (cycle : ℕ) (allowChainMul : Bool) (registers : RegisterInfos)
    (i : Fin 8) : Bool :=
  let v := registers[i]
  decide (v.latency ≤ cycle) &&
    (instr.canReuse || (i.val : ℤ) != instr.src) &&
    (allowChainMul || instr.opGroup != .imulR || v.lastOpGroup != .imulR) &&
    (v.lastOpGroup != instr.opGroup || v.lastOpPar != instr.opGroupPar) &&
    (instr.info.op != .iaddRs || i.val != regNeedsDisplacementIx)

/-- The instruction with its destination, `none` where the source returns `false`. -/
def selectDestination (instr : ScInstr) (cycle : ℕ) (allowChainMul : Bool)
    (registers : RegisterInfos) : Draw G (Option ScInstr) := do
  let available := (List.finRange 8).filter (instr.isAvailable cycle allowChainMul registers)
  match ← selectRegister gen available with
  | some i => return some { instr with dst := i.val }
  | none => return none

/-- The instruction with its source, `none` where the source code returns `false`. -/
def selectSource (instr : ScInstr) (cycle : ℕ) (registers : RegisterInfos) :
    Draw G (Option ScInstr) := do
  let available := (List.finRange 8).filter fun i => registers[i].latency ≤ cycle
  if available.length = 2 ∧ instr.info.op = .iaddRs ∧
      (available[0]?.map Fin.val = some regNeedsDisplacementIx ∨
        available[1]?.map Fin.val = some regNeedsDisplacementIx) then
    return some { instr with opGroupPar := regNeedsDisplacementIx, src := regNeedsDisplacementIx }
  match ← selectRegister gen available with
  | some i =>
    let instr := { instr with src := i.val }
    return some (if instr.groupParIsSource then { instr with opGroupPar := instr.src } else instr)
  | none => return none

end ScInstr

/-- The look-ahead loops of `generate`: the selection is tried at the schedule cycle and, while
it fails, at later ones; `cycle` advances with it. -/
def lookForward (select : ℕ → Draw G (Option ScInstr)) :
    ℕ → ℕ → ℕ → Draw G (Option ScInstr × ℕ × ℕ)
  | 0, scheduleCycle, cycle => return (none, scheduleCycle, cycle)
  | remaining + 1, scheduleCycle, cycle => do
    match ← select scheduleCycle with
    | some instr => return (some instr, scheduleCycle, cycle)
    | none => lookForward select remaining (scheduleCycle + 1) (cycle + 1)

/-! ## The scheduling loop -/

/-- The locals of `generate`, less those of its two loops. -/
structure Scheduler where
  prog : List ScInstr
  portBusy : PortBusy
  registers : RegisterInfos
  macroOpIndex : ℕ
  cycle : ℕ
  depCycle : ℕ
  portsSaturated : Bool
  programSize : ℕ
  mulCount : ℕ
  currentInstr : ScInstr

def Scheduler.initial : Scheduler where
  prog := []
  portBusy := Vector.replicate _ (Vector.replicate _ .null)
  registers := Vector.replicate _ RegisterInfo.new
  macroOpIndex := 0
  cycle := 0
  depCycle := 0
  portsSaturated := false
  programSize := 0
  mulCount := 0
  currentInstr := ScInstr.null

/-- How an iteration of the inner loop ends after a macro operation was taken up. -/
inductive Issue where
  /-- no register in the look-ahead window -/
  | stalled (s : Scheduler)
  /-- no free port; the throw-away count at that point -/
  | saturated (s : Scheduler) (throwAwayCount : ℕ)
  | issued (s : Scheduler)

/-- The bookkeeping for a committed macro operation. -/
def Scheduler.retire (s : Scheduler) (mop : ScMacroOp) (scheduleCycle : ℕ) : Draw G Scheduler := do
  let depCycle := scheduleCycle + mop.latency
  let instr := s.currentInstr
  let registers ← (if s.macroOpIndex = instr.info.resultOp then
      if h : 0 ≤ instr.dst ∧ instr.dst.toNat < 8 then
        pure (s.registers.set instr.dst.toNat
          { latency := depCycle, lastOpGroup := instr.opGroup, lastOpPar := instr.opGroupPar } h.2)
      else throw .panic
    else pure s.registers)
  let s := { s with
    depCycle, registers
    macroOpIndex := s.macroOpIndex + 1
    portsSaturated := s.portsSaturated || decide (scheduleCycle ≥ randomxSuperscalarLatency) }
  if s.macroOpIndex ≥ instr.info.size then
    return { s with
      mulCount := if instr.info.op.isMultiplication then s.mulCount + 1 else s.mulCount
      prog := s.prog ++ [instr]
      programSize := s.programSize + 1 }
  else return s

/-- The part of an inner iteration after the fetch of an instruction. -/
def Scheduler.issue (throwAwayCount : ℕ) (s : Scheduler) : Draw G Issue := do
  let mop ← expect (s.currentInstr.info.macroOp s.macroOpIndex)
  let (scheduled, portBusy) := scheduleMop false mop s.portBusy s.cycle s.depCycle
  let s := { s with portBusy }
  match scheduled with
  | none => return .saturated { s with portsSaturated := true } throwAwayCount
  | some scheduleCycle =>
    let (instr?, scheduleCycle, cycle) ←
      (if (s.macroOpIndex : ℤ) = s.currentInstr.info.srcOp then
        lookForward (fun c => s.currentInstr.selectSource gen c s.registers) lookForwardCycles
          scheduleCycle s.cycle
      else pure (some s.currentInstr, scheduleCycle, s.cycle))
    match instr? with
    | none => return .stalled { s with cycle }
    | some instr =>
      let (instr?, scheduleCycle, cycle) ←
        (if (s.macroOpIndex : ℤ) = instr.info.dstOp then
          lookForward (fun c => instr.selectDestination gen c (throwAwayCount > 0) s.registers)
            lookForwardCycles scheduleCycle cycle
        else pure (some instr, scheduleCycle, cycle))
      match instr? with
      | none => return .stalled { s with cycle, currentInstr := instr }
      | some instr =>
        let (committed, portBusy) := scheduleMop true mop s.portBusy scheduleCycle scheduleCycle
        let s := { s with portBusy, currentInstr := instr }
        match committed with
        | none => return .saturated { s with cycle, portsSaturated := true } 0
        -- the cycle is set back to the one of the iteration's start
        | some scheduleCycle => return .issued (← s.retire mop scheduleCycle)

/-- The inner loop, over the slots of a decode buffer. A stalled instruction is thrown away
and the slot tried again; the throw-away count bounds how often. -/
def fillBuffer (precomputeReciprocal : Bool) (rounds : ℕ) (buffer : DecoderBuffer)
    (bufferIndex throwAwayCount : ℕ) (s : Scheduler) : Draw G (Scheduler × ℕ) := do
  if bufferIndex < buffer.size then
    if s.macroOpIndex ≥ s.currentInstr.info.size ∧
        (s.portsSaturated ∨ s.programSize ≥ superscalarMaxSize) then
      return (s, throwAwayCount)
    let s ← (if s.macroOpIndex ≥ s.currentInstr.info.size then do
        let slotSize ← expect buffer.counts[bufferIndex]?
        let instr ← ScInstr.createForSlot gen precomputeReciprocal rounds slotSize buffer.index
          (buffer.size = bufferIndex + 1)
        pure { s with currentInstr := instr, macroOpIndex := 0 }
      else pure s)
    match ← s.issue gen throwAwayCount with
    | .saturated s throwAwayCount => return (s, throwAwayCount)
    | .stalled s =>
      if throwAwayCount < maxThrowawayCount then
        fillBuffer precomputeReciprocal rounds buffer bufferIndex (throwAwayCount + 1)
          { s with macroOpIndex := s.currentInstr.info.size }
      else return ({ s with currentInstr := ScInstr.null }, throwAwayCount)
    | .issued s => fillBuffer precomputeReciprocal rounds buffer (bufferIndex + 1) 0 s
  else return (s, throwAwayCount)
termination_by (buffer.size - bufferIndex, maxThrowawayCount - throwAwayCount)

/-- The outer loop, over decode cycles. -/
def fillBuffers (precomputeReciprocal : Bool) (rounds : ℕ) (decodeCycle throwAwayCount : ℕ)
    (s : Scheduler) : Draw G Scheduler := do
  if decodeCycle < randomxSuperscalarLatency ∧ ¬s.portsSaturated ∧
      s.programSize < superscalarMaxSize then
    let buffer ← DecoderBuffer.fetchNext gen s.currentInstr decodeCycle s.mulCount
    let (s, throwAwayCount) ← fillBuffer gen precomputeReciprocal rounds buffer 0 throwAwayCount s
    fillBuffers precomputeReciprocal rounds (decodeCycle + 1) throwAwayCount
      { s with cycle := s.cycle + 1 }
  else return s
termination_by randomxSuperscalarLatency - decodeCycle

/-! ## The finished program -/

/-- One step of the latency loop over the finished instructions. -/
def asicLatencyStep (latencies : Vector ℕ 8) (instr : ScInstr) : Option (Vector ℕ 8) := do
  if h : 0 ≤ instr.dst ∧ instr.dst.toNat < 8 then
    let latDst := latencies.get ⟨instr.dst.toNat, h.2⟩ + 1
    let latSrc ← (if instr.src < 0 ∨ instr.src = instr.dst then some 0
      else latencies[instr.src.toNat]?.map (· + 1))
    return latencies.set instr.dst.toNat (max latDst latSrc) h.2
  else none

/-- The first register of largest latency. -/
def addressRegister (latencies : Vector ℕ 8) : Fin 8 :=
  ((List.finRange 8).foldl
    (fun best i => if latencies[i] > best.1 then (latencies[i], i) else best) (0, 0)).2

/-- The program, less the statistics that only tests read. -/
structure ScProgram where
  prog : List ScInstr
  exec : List ScExecInstr
  asicLatencies : Vector ℕ 8
  addressReg : Fin 8

def ScProgram.generate (precomputeReciprocal : Bool) (rounds : ℕ) : Draw G ScProgram := do
  let s ← fillBuffers gen precomputeReciprocal rounds 0 0 Scheduler.initial
  let asicLatencies ← expect
    ((s.prog.take s.programSize).foldlM asicLatencyStep (Vector.replicate 8 0))
  let exec ← expect (s.prog.mapM ScExecInstr.decode)
  return {
    prog := s.prog
    exec := installPairHandlers exec
    asicLatencies
    addressReg := addressRegister asicLatencies }

end

end RandomXSp1.Superscalar
