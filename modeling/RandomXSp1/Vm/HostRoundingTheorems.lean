import RandomXSp1.Vm.HostRounding
import RandomXSp1.Vm.RoundingTheorems

/-!
# Hashes and the rounding mode of their caller

From the first reset on, the control register of the host selects the mode that the machine holds,
so every native operation rounds as it should. A hash neither depends on the mode its caller runs
in nor changes it.
-/

namespace RandomXSp1

open SoftFp (RoundingMode Nearest)

/-- The register selects the mode of the machine. -/
def Host.InSync (host : Host) (vm : Vm) (word : host.Word) : Prop :=
  host.register.roundingMode word = modeOfFprc vm.getRoundingMode

/-- A computation that leaves the mode of the machine alone. -/
def KeepsMode (vm : Vm) (result : Option Vm) : Prop :=
  ∀ vm', result = some vm' → vm'.roundingMode = vm.roundingMode

namespace KeepsMode

section
variable {vm : Vm}

/-- A failed step keeps the mode, and so do the combinations of steps that do. -/
lemma none : KeepsMode vm none := nofun

lemma some {vm' : Vm} (h : vm'.roundingMode = vm.roundingMode) : KeepsMode vm (some vm') := by
  intro u hu
  rw [← Option.some.inj hu]
  exact h

lemma map {α : Type} {o : Option α} {f : α → Vm}
    (h : ∀ a, (f a).roundingMode = vm.roundingMode) : KeepsMode vm (o.map f) := by
  intro vm' hvm'
  obtain ⟨a, -, rfl⟩ := Option.map_eq_some_iff.mp hvm'
  exact h a

lemma bind {α : Type} {o : Option α} {f : α → Option Vm} (h : ∀ a, KeepsMode vm (f a)) :
    KeepsMode vm (o >>= f) := by
  intro vm' hvm'
  obtain ⟨a, -, ha⟩ := Option.bind_eq_some_iff.mp hvm'
  exact h a vm' ha

lemma andThen {o : Option Vm} {f : Vm → Option Vm} (ho : KeepsMode vm o)
    (hf : ∀ vm', KeepsMode vm' (f vm')) : KeepsMode vm (o >>= f) := by
  intro vm' hvm'
  obtain ⟨u, hu, ha⟩ := Option.bind_eq_some_iff.mp hvm'
  exact (hf u vm' ha).trans (ho u hu)

lemma ite {p : Prop} [Decidable p] {o o' : Option Vm} (ho : KeepsMode vm o)
    (ho' : KeepsMode vm o') : KeepsMode vm (if p then o else o') := by
  split
  · exact ho
  · exact ho'

end

end KeepsMode

namespace Host

variable (host : Host)

/-- A state on the host that holds the machine and a register in step with it. -/
def Carries (vm : Vm) (state : Vm × host.Word) : Prop :=
  state.1 = vm ∧ host.InSync vm state.2

/-- A call that is put in its own mode is the same call. -/
lemma inMode_mode (call : LaneCall) : call.inMode call.mode = call := by cases call <;> rfl

/-- In step with the machine, the host rounds a call in the mode it is meant for. -/
lemma hardware_eq {word : host.Word} {call : LaneCall}
    (h : host.register.roundingMode word = call.mode) :
    host.hardware word call = host.native call := by
  rw [hardware, h, inMode_mode]

section
variable {host} {vm vm' : Vm} {word : host.Word}

/-- The word of the host stays in step as long as the mode of the state does. -/
lemma InSync.of_roundingMode_eq (h : host.InSync vm word)
    (hmode : vm'.roundingMode = vm.roundingMode) : host.InSync vm' word := by
  unfold InSync Vm.getRoundingMode at h ⊢
  rw [hmode]
  exact h

/-- The reset puts them in step, whatever the word was. -/
lemma inSync_resetRoundingMode :
    host.InSync vm.resetRoundingMode (host.register.setRoundingModeEnv 0 word) :=
  host.register.roundingMode_set 0 word

/-- An instruction sets the mode in both places or in neither. -/
lemma InSync.after {sets : Bool} (h : host.InSync vm word)
    (hkeeps : sets = false → vm'.roundingMode = vm.roundingMode) :
    host.InSync vm' (host.after sets vm' word) := by
  unfold Host.after
  cases sets with
  | true => exact host.register.roundingMode_set _ word
  | false =>
    -- exception flags are other bits of the register
    refine (host.roundingMode_raise vm' word).trans ?_
    exact h.of_roundingMode_eq (hkeeps rfl)

end

end Host

/-! ## The reference interpreter -/

namespace Reference

section
variable (vm : Vm) (instr : Instr)

/-- No write of a register touches the mode. -/
lemma keepsMode_writeR (value : U64) (store : Store) : KeepsMode vm (writeR vm value store) := by
  cases store with
  | r i => exact .map fun _ => rfl
  | _ => exact .none

lemma keepsMode_writeF (value : M128d) (store : Store) : KeepsMode vm (writeF vm value store) := by
  cases store with
  | f i => exact .map fun _ => rfl
  | _ => exact .none

lemma keepsMode_writeE (value : M128d) (store : Store) : KeepsMode vm (writeE vm value store) := by
  cases store with
  | e i => exact .map fun _ => rfl
  | _ => exact .none

lemma keepsMode_writeFloatReg (value : M128d) (store : Store) :
    KeepsMode vm (writeFloatReg vm value store) := by
  cases store with
  | a i | e i | f i => exact .map fun _ => rfl
  | _ => exact .none

lemma keepsMode_onImmOrR (op : U64 → U64 → U64) : KeepsMode vm (onImmOrR vm instr op) :=
  .bind fun _ => .bind fun _ => keepsMode_writeR vm _ _

lemma keepsMode_onSource (op : U64 → U64 → U64) : KeepsMode vm (onSource vm instr op) :=
  .bind fun _ => .bind fun _ => keepsMode_writeR vm _ _

lemma keepsMode_onScratchpad (op : U64 → U64 → U64) : KeepsMode vm (onScratchpad vm instr op) :=
  .bind fun _ => .bind fun _ => keepsMode_writeR vm _ _

/-- Only `exec_cfround` changes the mode. -/
lemma keepsMode_execute (host : LaneCall → U64) (h : instr.setsMode = false) :
    KeepsMode vm (instr.execute vm host) := by
  unfold Instr.setsMode at h
  unfold Instr.execute
  generalize instr.effect = effect at h
  cases effect with
  | nop => exact .some rfl
  | iaddM | isubM | imulM | imulhM | ismulhM | ixorM => exact keepsMode_onScratchpad vm instr _
  | isubR | imulR | ixorR | irorR | irolR => exact keepsMode_onImmOrR vm instr _
  | imulhR | ismulhR => exact keepsMode_onSource vm instr _
  | iaddRs => exact .bind fun _ => .bind fun _ => .bind fun _ => keepsMode_writeR vm _ _
  | imulRcp => exact .ite (.bind fun _ => keepsMode_writeR vm _ _) (.some rfl)
  | inegR => exact .bind fun _ => keepsMode_writeR vm _ _
  | iswapR =>
    exact .bind fun _ => .bind fun _ => .andThen (keepsMode_writeR vm _ _) fun vm' =>
      keepsMode_writeR vm' _ _
  | fswapR => exact .bind fun _ => keepsMode_writeFloatReg vm _ _
  | faddR | fsubR | faddM | fsubM => exact .bind fun _ => .bind fun _ => keepsMode_writeF vm _ _
  | fscalR => exact .bind fun _ => keepsMode_writeF vm _ _
  | fmulR | fdivM => exact .bind fun _ => .bind fun _ => keepsMode_writeE vm _ _
  | fsqrtR => exact .bind fun _ => keepsMode_writeE vm _ _
  | cbranch =>
    exact .bind fun _ => .bind fun _ => .bind fun _ => .andThen (keepsMode_writeR vm _ _) fun _ =>
      .ite (.bind fun _ => .some rfl) (.some rfl)
  | cfround => exact absurd h nofun
  | istore => exact .bind fun _ => .bind fun _ => .ite (.some rfl) .none

/-- An instruction calls the host in the mode of the machine only. -/
lemma execute_congr {host host' : LaneCall → U64}
    (h : ∀ call, call.mode = hostRoundingMode vm → host' call = host call) :
    instr.execute vm host' = instr.execute vm host := by
  have hnative (call : RoundingMode → U64 → U64 → LaneCall)
      (hcall : ∀ mode a b, (call mode a b).mode = mode) (x y : M128d) :
      native vm host' call x y = native vm host call x y := by
    unfold native
    dsimp only
    rw [h _ (hcall _ _ _), h _ (hcall _ _ _)]
  have hsqrt (x : M128d) : nativeSqrt vm host' x = nativeSqrt vm host x := by
    unfold nativeSqrt
    dsimp only
    rw [h (.sqrt (hostRoundingMode vm) x.high) rfl, h (.sqrt (hostRoundingMode vm) x.low) rfl]
  have hadd := hnative .add fun _ _ _ => rfl
  have hsub := hnative .sub fun _ _ _ => rfl
  have hmul := hnative .mul fun _ _ _ => rfl
  have hdiv := hnative .div fun _ _ _ => rfl
  unfold Instr.execute
  cases instr.effect with
  | faddR => unfold execFaddR; simp only [hadd]
  | faddM => unfold execFaddM; simp only [hadd]
  | fsubR => unfold execFsubR; simp only [hsub]
  | fsubM => unfold execFsubM; simp only [hsub]
  | fmulR => unfold execFmulR; simp only [hmul]
  | fdivM => unfold execFdivM; simp only [hdiv]
  | fsqrtR => unfold execFsqrtR; simp only [hsqrt]
  | _ => rfl

end

section
variable {host : Host}

/-- In step, an instruction does on the host what it does with the arithmetic of its mode. -/
lemma execute_hardware {vm : Vm} {word : host.Word} (h : host.InSync vm word) (instr : Instr) :
    instr.execute vm (host.hardware word) = instr.execute vm host.native :=
  execute_congr vm instr fun _ hcall => host.hardware_eq (h.trans hcall.symm)

/-- A dispatch keeps the host in step. -/
lemma dispatchOn_follows {prog : Program} {vm vm' : Vm} {state : Vm × host.Word}
    (hcarries : host.Carries vm state) (h : dispatch host.native prog vm = some vm') :
    ∃ state', dispatchOn host prog state = some state' ∧ host.Carries vm' state' := by
  obtain ⟨vm₀, word⟩ := state
  obtain ⟨rfl, hsync⟩ := hcarries
  obtain ⟨instr, hinstr, hrest⟩ := Option.bind_eq_some_iff.mp h
  obtain ⟨vm₁, hexec, hvm'⟩ := Option.bind_eq_some_iff.mp hrest
  refine ⟨(vm', host.after instr.setsMode vm₁ word), ?_, rfl, ?_⟩
  · unfold dispatchOn
    dsimp only
    rw [hinstr, Option.bind_eq_bind, Option.bind_some, execute_hardware hsync, hexec,
      ← Option.some.inj hvm']
    rfl
  · have hmode := hsync.after fun hsets => keepsMode_execute vm₀ instr host.native hsets vm₁ hexec
    rw [← Option.some.inj hvm']
    exact hmode

end

lemma keepsMode_loadRegisters (vm : Vm) (addr0 addr1 : ℕ) :
    KeepsMode vm (loadRegisters vm addr0 addr1) :=
  .bind fun _ => .bind fun _ => .bind fun _ => .some rfl

lemma roundingMode_enterLoop {vm : Vm} {spAddr0 spAddr1 : U32} {entry : Vm × ℕ × ℕ}
    (h : enterLoop vm spAddr0 spAddr1 = some entry) : entry.1.roundingMode = vm.roundingMode := by
  obtain ⟨word0, -, h⟩ := Option.bind_eq_some_iff.mp h
  obtain ⟨word1, -, h⟩ := Option.bind_eq_some_iff.mp h
  obtain ⟨loaded, hloaded, h⟩ := Option.bind_eq_some_iff.mp h
  rw [← Option.some.inj h]
  exact keepsMode_loadRegisters vm _ _ loaded hloaded

lemma keepsMode_leaveLoop (addr0 addr1 : ℕ) (vm : Vm) :
    KeepsMode vm (leaveLoop addr0 addr1 vm) :=
  .bind fun _ => .bind fun _ => .bind fun _ => .bind fun _ => .bind fun _ => .some rfl

section
variable {host : Host} {rounds : ℕ}

/-- So does an iteration. -/
lemma iterationOn_follows {prog : Program} {state state' : Vm × U32 × U32}
    {held : (Vm × host.Word) × U32 × U32}
    (hcarries : host.Carries state.1 held.1 ∧ held.2 = state.2)
    (h : iteration host.native rounds prog state = some state') :
    ∃ held', iterationOn host rounds prog held = some held' ∧
      (host.Carries state'.1 held'.1 ∧ held'.2 = state'.2) := by
  obtain ⟨vm, spAddrs⟩ := state
  obtain ⟨⟨vm₀, word⟩, spAddrs₀⟩ := held
  obtain ⟨⟨rfl, hsync⟩, rfl⟩ := hcarries
  obtain ⟨⟨entered, addr0, addr1⟩, henter, h⟩ := Option.bind_eq_some_iff.mp h
  obtain ⟨looped, hloop, h⟩ := Option.bind_eq_some_iff.mp h
  obtain ⟨left, hleave, hstate'⟩ := Option.bind_eq_some_iff.mp h
  have hentered : host.Carries entered (entered, word) :=
    ⟨rfl, hsync.of_roundingMode_eq (roundingMode_enterLoop henter)⟩
  have hcond : ∀ state held, host.Carries state held → inLoop held.1 = inLoop state :=
    fun _ _ hstate => by rw [hstate.1]
  obtain ⟨⟨_, word'⟩, hloopOn, rfl, hlooped⟩ := whileLoop_related hcond
    (fun _ _ _ hstate _ hstep => dispatchOn_follows hstate hstep) hentered hloop
  refine ⟨((left, word'), 0, 0), ?_, ?_⟩
  · unfold iterationOn
    dsimp only
    rw [henter, Option.bind_eq_bind, Option.bind_some]
    dsimp only
    rw [hloopOn, Option.bind_eq_bind, Option.bind_some]
    dsimp only
    rw [hleave]
    rfl
  · rw [← Option.some.inj hstate']
    exact ⟨⟨rfl, hlooped.of_roundingMode_eq (keepsMode_leaveLoop _ _ _ left hleave)⟩, rfl⟩

/-- So does a program. -/
lemma runOn_follows {vm vm' : Vm} {state : Vm × host.Word} (hcarries : host.Carries vm state)
    {seed : Aes.State} (h : run host.native rounds vm seed = some vm') :
    ∃ state', runOn host rounds state seed = some state' ∧ host.Carries vm' state' := by
  obtain ⟨vm₀, word⟩ := state
  obtain ⟨rfl, hsync⟩ := hcarries
  obtain ⟨prog, hprog, h⟩ := Option.bind_eq_some_iff.mp h
  obtain ⟨last, hlast, h⟩ := Option.bind_eq_some_iff.mp h
  have hinit : host.InSync (vm₀.initVm prog.entropy) word := hsync.of_roundingMode_eq rfl
  obtain ⟨held, hheld, hcarries, -⟩ := foldlM_follows
    (g := fun state (_ : ℕ) => iterationOn host rounds prog state)
    (t := ((vm₀.initVm prog.entropy, word), (vm₀.initVm prog.entropy).mx.setWidth 32,
      (vm₀.initVm prog.entropy).ma.setWidth 32))
    (fun _ _ _ _ hstate hstep => iterationOn_follows hstate hstep) ⟨⟨rfl, hinit⟩, rfl⟩ hlast
  refine ⟨held.1, ?_, ?_⟩
  · unfold runOn
    dsimp only
    rw [hprog, Option.bind_eq_bind, Option.bind_some, hheld]
    rfl
  · rw [← Option.some.inj h]
    exact hcarries

variable {blake2b : Blake2b}

lemma runAndReseedOn_follows {state state' : Vm × Aes.State}
    {held : (Vm × host.Word) × Aes.State}
    (hcarries : host.Carries state.1 held.1 ∧ held.2 = state.2)
    (h : runAndReseed host.native rounds blake2b state = some state') :
    ∃ held', runAndReseedOn host rounds blake2b held = some held' ∧
      (host.Carries state'.1 held'.1 ∧ held'.2 = state'.2) := by
  obtain ⟨vm', hrun, h⟩ := Option.bind_eq_some_iff.mp h
  obtain ⟨ran, hran, hcarries'⟩ := runOn_follows hcarries.1 hrun
  refine ⟨(ran, state'.2), ?_, ?_⟩
  · unfold runAndReseedOn
    rw [hcarries.2, hran, ← Option.some.inj h, ← hcarries'.1]
    rfl
  · rw [← Option.some.inj h]
    exact ⟨hcarries', rfl⟩

/-- On a host the reference interpreter does what it does on the operations of the host in the
mode of each call, and restores the register. -/
theorem calculateHashOn_eq {vm : Vm} {input : List U8} {out : Vector U8 32 × Vm}
    (h : calculateHash host.native rounds blake2b vm input = some out) (word : host.Word) :
    calculateHashOn host rounds blake2b vm word input = some (out, word) := by
  obtain ⟨filled, hfilled, h⟩ := Option.bind_eq_some_iff.mp h
  obtain ⟨last, hlast, h⟩ := Option.bind_eq_some_iff.mp h
  obtain ⟨vm', hrun, h⟩ := Option.bind_eq_some_iff.mp h
  obtain ⟨finalHash, hfinal, h⟩ := Option.bind_eq_some_iff.mp h
  have hreset : host.Carries filled.1.resetRoundingMode
      (filled.1.resetRoundingMode, host.register.setRoundingModeEnv 0 word) :=
    ⟨rfl, Host.inSync_resetRoundingMode⟩
  obtain ⟨held, hheld, hcarries, hseed⟩ := foldlM_follows
    (g := fun state (_ : ℕ) => runAndReseedOn host rounds blake2b state)
    (s := (filled.1.resetRoundingMode, filled.2))
    (t := ((filled.1.resetRoundingMode, host.register.setRoundingModeEnv 0 word), filled.2))
    (fun _ _ _ _ hstate hstep => runAndReseedOn_follows hstate hstep)
    ⟨hreset, rfl⟩ hlast
  obtain ⟨ran, hran, hcarries'⟩ := runOn_follows hcarries hrun
  unfold calculateHashOn
  dsimp only
  rw [hfilled, Option.bind_eq_bind, Option.bind_some, hheld, Option.bind_eq_bind, Option.bind_some,
    hseed, hran, Option.bind_eq_bind, Option.bind_some, hcarries'.1, hfinal, ← Option.some.inj h]
  rfl

end

end Reference

/-! ## The optimized interpreter -/

namespace Optimized

section
variable (vm : Vm) (instr : CompactInstr)

lemma keepsMode_setR (byteOffset : U8) (value : U64) : KeepsMode vm (setR vm byteOffset value) :=
  .map fun _ => rfl

lemma keepsMode_setF (byteOffset : U8) (value : M128d) : KeepsMode vm (setF vm byteOffset value) :=
  .map fun _ => rfl

lemma keepsMode_setE (byteOffset : U8) (value : M128d) : KeepsMode vm (setE vm byteOffset value) :=
  .map fun _ => rfl

lemma keepsMode_onRegisters (op : U64 → U64 → U64) : KeepsMode vm (onRegisters vm instr op) :=
  .bind fun _ => .bind fun _ => keepsMode_setR vm _ _

lemma keepsMode_onImmediate (op : U64 → U64 → U64) : KeepsMode vm (onImmediate vm instr op) :=
  .bind fun _ => keepsMode_setR vm _ _

lemma keepsMode_onMemory (op : U64 → U64 → U64) : KeepsMode vm (onMemory vm instr op) :=
  .bind fun _ => .bind fun _ => .bind fun _ => keepsMode_setR vm _ _

/-- Only `exec_cfround` changes the mode. -/
lemma keepsMode_run (ops : LaneOps) (h : instr.setsMode = false) :
    KeepsMode vm (instr.run vm ops) := by
  unfold CompactInstr.setsMode at h
  unfold CompactInstr.run
  generalize instr.effect = effect at h
  cases effect with
  | nop => exact .some rfl
  | iaddM | isubM | imulM | imulhM | ismulhM | ixorM => exact keepsMode_onMemory vm instr _
  | isubR | imulR | imulhR | ismulhR | ixorR | irorR | irolR =>
    exact keepsMode_onRegisters vm instr _
  | isubImm | imulImm | ixorImm | irorImm | irolImm => exact keepsMode_onImmediate vm instr _
  | iaddRs => exact .bind fun _ => .bind fun _ => keepsMode_setR vm _ _
  | imulRcp => exact .ite (keepsMode_onImmediate vm instr _) (.some rfl)
  | inegR => exact .bind fun _ => keepsMode_setR vm _ _
  | iswapR =>
    exact .bind fun _ => .bind fun _ => .andThen (keepsMode_setR vm _ _) fun vm' =>
      keepsMode_setR vm' _ _
  | fswapF | fscalR => exact .bind fun _ => keepsMode_setF vm _ _
  | fswapE => exact .bind fun _ => keepsMode_setE vm _ _
  | faddR | fsubR =>
    exact .bind fun _ => .bind fun _ => .bind fun _ => .bind fun _ => keepsMode_setF vm _ _
  | faddM | fsubM =>
    exact .bind fun _ => .bind fun _ => .bind fun _ => .bind fun _ => .bind fun _ =>
      keepsMode_setF vm _ _
  | fmulR =>
    exact .bind fun _ => .bind fun _ => .bind fun _ => .bind fun _ => keepsMode_setE vm _ _
  | fdivM =>
    exact .bind fun _ => .bind fun _ => .bind fun _ => .bind fun _ => .bind fun _ =>
      keepsMode_setE vm _ _
  | fsqrtR => exact .bind fun _ => .bind fun _ => .bind fun _ => keepsMode_setE vm _ _
  | cbranch =>
    exact .bind fun _ => .andThen (keepsMode_setR vm _ _) fun _ => .ite (.some rfl) (.some rfl)
  | cfround => exact absurd h nofun
  | istore => exact .bind fun _ => .bind fun _ => .ite (.some rfl) .none

/-- An instruction calls the lane arithmetic in the mode of the machine only. -/
lemma run_congr {ops ops' : LaneOps}
    (h : ∀ call, roundingMode vm = some call.mode → ops' call = ops call) :
    instr.run vm ops' = instr.run vm ops := by
  have hboth (call : RoundingMode → U64 → U64 → LaneCall)
      (hcall : ∀ mode a b, (call mode a b).mode = mode) (x y : M128d) (k : M128d → Option Vm) :
      (roundingMode vm >>= fun mode => ops'.both (call mode) x y >>= k)
        = roundingMode vm >>= fun mode => ops.both (call mode) x y >>= k := by
    cases hmode : roundingMode vm with
    | none => rfl
    | some mode =>
      have hops (a b : U64) : ops' (call mode a b) = ops (call mode a b) :=
        h _ (by rw [hmode, hcall])
      rw [Option.bind_eq_bind, Option.bind_some, Option.bind_some, LaneOps.both, LaneOps.both,
        hops, hops]
  have hsqrt (x : M128d) (k : M128d → Option Vm) :
      (roundingMode vm >>= fun mode => ops'.bothSqrt mode x >>= k)
        = roundingMode vm >>= fun mode => ops.bothSqrt mode x >>= k := by
    cases hmode : roundingMode vm with
    | none => rfl
    | some mode =>
      have hops (a : U64) : ops' (.sqrt mode a) = ops (.sqrt mode a) := h _ hmode
      rw [Option.bind_eq_bind, Option.bind_some, Option.bind_some, LaneOps.bothSqrt,
        LaneOps.bothSqrt, hops, hops]
  have hadd := hboth .add fun _ _ _ => rfl
  have hsub := hboth .sub fun _ _ _ => rfl
  have hmul := hboth .mul fun _ _ _ => rfl
  have hdiv := hboth .div fun _ _ _ => rfl
  unfold CompactInstr.run
  cases instr.effect with
  | faddR => unfold execFaddR; simp only [hadd]
  | faddM => unfold execFaddM; simp only [hadd]
  | fsubR => unfold execFsubR; simp only [hsub]
  | fsubM => unfold execFsubM; simp only [hsub]
  | fmulR => unfold execFmulR; simp only [hmul]
  | fdivM => unfold execFdivM; simp only [hdiv]
  | fsqrtR => unfold execFsqrtR; simp only [hsqrt]
  | _ => rfl

end

lemma modeOfFprc_eq {vm : Vm} {mode : RoundingMode} (h : roundingMode vm = some mode) :
    modeOfFprc vm.getRoundingMode = mode := by
  unfold roundingMode fromValidFprc at h
  unfold modeOfFprc
  split at h
  case h_5 => exact absurd h nofun
  all_goals
    rename_i heq
    rw [heq, ← Option.some.inj h]
    rfl

section
variable {host : Host} {nearest : Nearest}

/-- In step with the machine, the register reaches the nearest operations in mode nearest only. -/
lemma laneOpOn_eq {word : host.Word} {call : LaneCall}
    (h : host.register.roundingMode word = call.mode) :
    laneOpOn host nearest word call = some (laneOp (.ofArith host.native) nearest call) := by
  have hhardware (c : LaneCall) (hc : c.mode = .nearest) (hcall : call.mode = .nearest) :
      host.hardware word c = host.native c :=
    host.hardware_eq (h.trans (hcall.trans hc.symm))
  unfold laneOpOn
  apply congrArg some
  cases call with
  | add | sub | mul | div | sqrt =>
    exact ite_congr rfl (fun hmode => hhardware _ rfl hmode) fun _ => rfl

/-- The lane arithmetic on a host whose register is in step. -/
def inStepOps (host : Host) (nearest : Nearest) : LaneOps := fun call =>
  some (laneOp (.ofArith host.native) nearest call)

/-- In step, the target's own operations are in mode nearest when they are selected. -/
lemma run_laneOpOn {vm : Vm} {word : host.Word} (h : host.InSync vm word) (instr : CompactInstr) :
    instr.run vm (laneOpOn host nearest word) = instr.run vm (inStepOps host nearest) :=
  run_congr vm instr fun _ hcall => laneOpOn_eq (h.trans (modeOfFprc_eq hcall))

lemma dispatchOn_follows {program : CompactProgram} {vm vm' : Vm} {state : Vm × host.Word}
    (hcarries : host.Carries vm state)
    (h : dispatch (inStepOps host nearest) program vm = some vm') :
    ∃ state', dispatchOn host nearest program state = some state' ∧ host.Carries vm' state' := by
  obtain ⟨vm₀, word⟩ := state
  obtain ⟨rfl, hsync⟩ := hcarries
  obtain ⟨instr, hinstr, hrest⟩ := Option.bind_eq_some_iff.mp h
  obtain ⟨vm₁, hrun, hvm'⟩ := Option.bind_eq_some_iff.mp hrest
  refine ⟨(vm', host.after instr.setsMode vm₁ word), ?_, rfl, ?_⟩
  · unfold dispatchOn
    dsimp only
    rw [hinstr, Option.bind_eq_bind, Option.bind_some, run_laneOpOn hsync, hrun,
      ← Option.some.inj hvm']
    rfl
  · have hmode := hsync.after fun hsets => keepsMode_run vm₀ instr _ hsets vm₁ hrun
    rw [← Option.some.inj hvm']
    exact hmode

end

lemma keepsMode_loadRegisters (vm : Vm) (addr0 addr1 : ℕ) :
    KeepsMode vm (loadRegisters vm addr0 addr1) :=
  .bind fun _ => .bind fun _ => .bind fun _ => .some rfl

lemma keepsMode_storeRegisters (vm : Vm) (addr0 addr1 : ℕ) :
    KeepsMode vm (storeRegisters vm addr0 addr1) :=
  .bind fun _ => .bind fun _ => .some rfl

lemma roundingMode_enterLoop {readReg : Vector U8 4} {vm : Vm} {locals : Locals}
    {entry : Vm × ℕ × ℕ} (h : enterLoop readReg vm locals = some entry) :
    entry.1.roundingMode = vm.roundingMode := by
  obtain ⟨word0, -, h⟩ := Option.bind_eq_some_iff.mp h
  obtain ⟨word1, -, h⟩ := Option.bind_eq_some_iff.mp h
  obtain ⟨loaded, hloaded, h⟩ := Option.bind_eq_some_iff.mp h
  rw [← Option.some.inj h]
  exact keepsMode_loadRegisters vm _ _ loaded hloaded

lemma roundingMode_leaveLoop {readReg : Vector U8 4} {datasetOffset : U64} {locals : Locals}
    {addr0 addr1 : ℕ} {vm : Vm} {left : Vm × Locals}
    (h : leaveLoop readReg datasetOffset locals addr0 addr1 vm = some left) :
    left.1.roundingMode = vm.roundingMode := by
  obtain ⟨word2, -, h⟩ := Option.bind_eq_some_iff.mp h
  obtain ⟨word3, -, h⟩ := Option.bind_eq_some_iff.mp h
  obtain ⟨r, -, h⟩ := Option.bind_eq_some_iff.mp h
  obtain ⟨stored, hstored, h⟩ := Option.bind_eq_some_iff.mp h
  rw [← Option.some.inj h]
  exact keepsMode_storeRegisters { vm with r } _ _ stored hstored

section
variable {host : Host} {nearest : Nearest} {rounds : ℕ}

lemma iterationOn_follows {program : CompactProgram} {readReg : Vector U8 4} {datasetOffset : U64}
    {state state' : Vm × Locals} {held : (Vm × host.Word) × Locals}
    (hcarries : host.Carries state.1 held.1 ∧ held.2 = state.2)
    (h : iteration (inStepOps host nearest) rounds program readReg datasetOffset state
      = some state') :
    ∃ held', iterationOn host nearest rounds program readReg datasetOffset held = some held' ∧
      (host.Carries state'.1 held'.1 ∧ held'.2 = state'.2) := by
  obtain ⟨vm, locals⟩ := state
  obtain ⟨⟨vm₀, word⟩, locals₀⟩ := held
  obtain ⟨⟨rfl, hsync⟩, rfl⟩ := hcarries
  obtain ⟨⟨entered, addr0, addr1⟩, henter, h⟩ := Option.bind_eq_some_iff.mp h
  obtain ⟨looped, hloop, hleave⟩ := Option.bind_eq_some_iff.mp h
  have hentered : host.Carries entered (entered, word) :=
    ⟨rfl, hsync.of_roundingMode_eq (roundingMode_enterLoop henter)⟩
  have hcond : ∀ state held, host.Carries state held → inLoop held.1 = inLoop state :=
    fun _ _ hstate => by rw [hstate.1]
  obtain ⟨⟨_, word'⟩, hloopOn, rfl, hlooped⟩ := whileLoop_related hcond
    (fun _ _ _ hstate _ hstep => dispatchOn_follows hstate hstep) hentered hloop
  refine ⟨((state'.1, word'), state'.2), ?_, ⟨rfl, ?_⟩, rfl⟩
  · unfold iterationOn
    dsimp only
    rw [henter, Option.bind_eq_bind, Option.bind_some]
    dsimp only
    rw [hloopOn, Option.bind_eq_bind, Option.bind_some]
    dsimp only
    rw [hleave]
    rfl
  · exact hlooped.of_roundingMode_eq (roundingMode_leaveLoop hleave)

lemma runOn_follows {vm vm' : Vm} {state : Vm × host.Word} (hcarries : host.Carries vm state)
    {seed : Aes.State} (h : run (inStepOps host nearest) rounds vm seed = some vm') :
    ∃ state', runOn host nearest rounds state seed = some state' ∧ host.Carries vm' state' := by
  obtain ⟨vm₀, word⟩ := state
  obtain ⟨rfl, hsync⟩ := hcarries
  obtain ⟨program, hprogram, h⟩ := Option.bind_eq_some_iff.mp h
  obtain ⟨last, hlast, h⟩ := Option.bind_eq_some_iff.mp h
  have hinit : host.InSync (vm₀.initVm program.entropy) word := hsync.of_roundingMode_eq rfl
  obtain ⟨held, hheld, hcarries, hlocals⟩ := foldlM_follows
    (g := fun state (_ : ℕ) => iterationOn host nearest rounds program
      (readRegOffsets (vm₀.initVm program.entropy)) (vm₀.initVm program.entropy).datasetOffset
      state)
    (t := ((vm₀.initVm program.entropy, word), initLocals (vm₀.initVm program.entropy)))
    (fun _ _ _ _ hstate hstep => iterationOn_follows hstate hstep) ⟨⟨rfl, hinit⟩, rfl⟩ hlast
  refine ⟨(vm', held.1.2), ?_, rfl, ?_⟩
  · unfold runOn
    dsimp only
    rw [hprogram, Option.bind_eq_bind, Option.bind_some, hheld, ← Option.some.inj h, ← hcarries.1,
      ← hlocals]
    rfl
  · rw [← Option.some.inj h]
    exact hcarries.2.of_roundingMode_eq rfl

variable {blake2b : Blake2b}

lemma runAndReseedOn_follows {state state' : Vm × Aes.State}
    {held : (Vm × host.Word) × Aes.State}
    (hcarries : host.Carries state.1 held.1 ∧ held.2 = state.2)
    (h : runAndReseed (inStepOps host nearest) rounds blake2b state = some state') :
    ∃ held', runAndReseedOn host nearest rounds blake2b held = some held' ∧
      (host.Carries state'.1 held'.1 ∧ held'.2 = state'.2) := by
  obtain ⟨vm', hrun, h⟩ := Option.bind_eq_some_iff.mp h
  obtain ⟨ran, hran, hcarries'⟩ := runOn_follows hcarries.1 hrun
  refine ⟨(ran, state'.2), ?_, ?_⟩
  · unfold runAndReseedOn
    rw [hcarries.2, hran, ← Option.some.inj h, ← hcarries'.1]
    rfl
  · rw [← Option.some.inj h]
    exact ⟨hcarries', rfl⟩

/-- On a host the optimized interpreter does what it does on the nearest operations of the host,
and restores the register. -/
theorem calculateHashImplOn_eq {vm : Vm} {input : List U8} {out : Vector U8 32 × Vm}
    (h : calculateHashImpl (inStepOps host nearest) rounds blake2b vm input = some out)
    (word : host.Word) :
    calculateHashImplOn host nearest rounds blake2b vm word input = some (out, word) := by
  obtain ⟨_, hsize, h⟩ := Option.bind_eq_some_iff.mp h
  obtain ⟨filled, hfilled, h⟩ := Option.bind_eq_some_iff.mp h
  obtain ⟨last, hlast, h⟩ := Option.bind_eq_some_iff.mp h
  obtain ⟨vm', hrun, h⟩ := Option.bind_eq_some_iff.mp h
  obtain ⟨finalHash, hfinal, h⟩ := Option.bind_eq_some_iff.mp h
  have hreset : host.Carries filled.1.resetRoundingMode
      (filled.1.resetRoundingMode, host.register.setRoundingModeEnv 0 word) :=
    ⟨rfl, Host.inSync_resetRoundingMode⟩
  obtain ⟨held, hheld, hcarries, hseed⟩ := foldlM_follows
    (g := fun state (_ : ℕ) => runAndReseedOn host nearest rounds blake2b state)
    (s := (filled.1.resetRoundingMode, filled.2))
    (t := ((filled.1.resetRoundingMode, host.register.setRoundingModeEnv 0 word), filled.2))
    (fun _ _ _ _ hstate hstep => runAndReseedOn_follows hstate hstep) ⟨hreset, rfl⟩ hlast
  obtain ⟨ran, hran, hcarries'⟩ := runOn_follows hcarries hrun
  unfold calculateHashImplOn
  dsimp only
  rw [hsize, Option.bind_eq_bind, Option.bind_some, hfilled, Option.bind_eq_bind, Option.bind_some,
    hheld, Option.bind_eq_bind, Option.bind_some, hseed, hran, Option.bind_eq_bind,
    Option.bind_some, hcarries'.1, hfinal, ← Option.some.inj h]
  rfl

end

end Optimized

/-! ## Hashes on a host -/

/-- The exception flag of an inexact result in MXCSR. -/
def raiseInexact (word : U32) : U32 := word ||| 0x20

/-- The flags that an operation raises are not the rounding field. -/
lemma roundingMode_raiseInexact (word : U32) :
    ControlRegister.mxcsr.roundingMode (raiseInexact word)
      = ControlRegister.mxcsr.roundingMode word := by
  have hfield : raiseInexact word >>> 13 &&& (3 : U32) = word >>> 13 &&& (3 : U32) := by
    unfold raiseInexact
    rw [BitVec.ushiftRight_or_distrib, show (0x20 : U32) >>> 13 = 0#32 from rfl, BitVec.or_zero]
  unfold ControlRegister.mxcsr
  dsimp only
  rw [hfield]

/-- x86-64, every operation inexact. -/
noncomputable def mxcsrHost : Host where
  register := .mxcsr
  native := roundingArith
  raise _ := raiseInexact
  roundingMode_raise _ word := roundingMode_raiseInexact word

/-- AArch64, whose flags are in another register. -/
noncomputable def fpcrHost : Host where
  register := .fpcr
  native := roundingArith
  raise _ word := word
  roundingMode_raise _ _ := rfl

/-- There is one digest and one final state for an input: on every host with correctly rounded
operations both interpreters return them, whatever the control register holds at the call, and
leave that register as it was. -/
theorem calculateHash_onHost (blake2b : Blake2b) (input : List U8) {rounds : ℕ}
    (hrounds : 768 ≤ rounds) {vm : Vm} (hsize : vm.scratchpad.size = scratchpadWords) :
    ∃ digest final, ∀ host : Host, CorrectlyRounded host.native → ∀ nearest : Nearest,
      nearest.IsBinary64 → ∀ word : host.Word,
        Reference.calculateHashOn host rounds blake2b vm word input
          = some ((digest, final), word) ∧
        Optimized.calculateHashImplOn host nearest rounds blake2b vm word input
          = some ((digest, final), word) := by
  obtain ⟨out, -, hoptimized, hreference⟩ := exists_roundingHash blake2b input hrounds hsize
  refine ⟨out.1, out.2, fun host hnative nearest hnearest word => ⟨?_, ?_⟩⟩
  · exact Reference.calculateHashOn_eq (hreference host.native hnative) word
  · have hlane := Optimized.correctlyRounded_laneOp (SoftFp.isBinary64_ofArith hnative) hnearest
    exact Optimized.calculateHashImplOn_eq (hoptimized _ hlane) word

lemma calculateHash_onHost_mxcsr_fpcr :
    let blake2b : Blake2b := fun _ _ => Vector.replicate _ 0
    let vm := Vm.newVm SeedMemory.noMemory
    ∃ digest final, ∀ (mxcsr : U32) (fpcr : U64),
      Reference.calculateHashOn mxcsrHost 768 blake2b vm mxcsr [1, 2, 3]
        = some ((digest, final), mxcsr) ∧
      Reference.calculateHashOn fpcrHost 768 blake2b vm fpcr [1, 2, 3]
        = some ((digest, final), fpcr) := by
  obtain ⟨digest, final, h⟩ := calculateHash_onHost (fun _ _ => Vector.replicate _ 0) [1, 2, 3]
    le_rfl (Vm.size_newVm SeedMemory.noMemory)
  have hrounding := correctlyRounded_roundingArith
  have hnearest := SoftFp.isBinary64_ofArith hrounding
  exact ⟨digest, final, fun mxcsr fpcr =>
    ⟨(h mxcsrHost hrounding _ hnearest mxcsr).1, (h fpcrHost hrounding _ hnearest fpcr).1⟩⟩

end RandomXSp1
