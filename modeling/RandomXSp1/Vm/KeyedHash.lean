import RandomXSp1.SeedMemory
import RandomXSp1.Vm.RoundingTheorems

/-!
# `hash`

The public entry point: the memory of a key, a new machine on it, and one hash. Neither the contents
of uninitialised memory nor the implementation of the lane arithmetic show in the digest.
-/

namespace RandomXSp1

open SoftFp (Nearest)

lemma ok_bind {ε α β : Type} (a : α) (f : α → Except ε β) : (Except.ok a >>= f) = f a := rfl

/-- The digest of a hash. -/
def digestOf : Option (Vector U8 32 × Vm) → Except Fault (Vector U8 32)
  | none => .error .panic
  | some (digest, _) => .ok digest

lemma digestOf_ne_rejecting (out : Option (Vector U8 32 × Vm)) :
    digestOf out ≠ .error .rejecting := by
  cases out <;> exact nofun

section
variable (blake2b : Blake2b) (grant rounds : ℕ) (scratch : Argon2.Block) (uninit : Argon2.Memory)

/-- `hash`, with the grants of the rejection loops of a key and of the instruction loops. -/
def hash (native nearest : Nearest) (key blob : List U8) : Except Fault (Vector U8 32) := do
  let memory ← SeedMemory.newInitialised blake2b grant .unchecked scratch uninit key
  digestOf (Optimized.calculateHashImpl (fun call => some (Optimized.laneOp native nearest call))
    rounds blake2b (Vm.newVm memory) blob)

/-- `Vm::calculate_hash` on a new machine with the memory of the key. -/
def referenceHash (host : LaneCall → U64) (key blob : List U8) :
    Except Fault (Vector U8 32) := do
  let memory ← SeedMemory.newInitialised blake2b grant .unchecked scratch uninit key
  digestOf (Reference.calculateHash host rounds blake2b (Vm.newVm memory) blob)

end

/-- The uninitialised memory does not show. -/
lemma SeedMemory.newInitialised_unique (blake2b : Blake2b) (grant : ℕ) (key : List U8) :
    (∀ scratch uninit,
      newInitialised blake2b grant .unchecked scratch uninit key = .error .rejecting) ∨
    ∃ seedMem, ∀ scratch uninit,
      newInitialised blake2b grant .unchecked scratch uninit key = .ok seedMem := by
  have hunique (scratch uninit) :
      newInitialised blake2b grant .unchecked scratch uninit key
        = newInitialised blake2b grant .unchecked Argon2.Block.zero
            (Vector.replicate _ Argon2.Block.zero) key := by
    obtain ⟨blocks, _, hchecked, hblocks, -⟩ :=
      Argon2.initializeRandomx_records blake2b key scratch uninit
    obtain ⟨blocks', _, hchecked', hblocks', -⟩ := Argon2.initializeRandomx_records blake2b key
      Argon2.Block.zero (Vector.replicate _ Argon2.Block.zero)
    obtain rfl : blocks = blocks' :=
      (Prod.ext_iff.mp (Option.some.inj (hchecked.symm.trans hchecked'))).1
    unfold newInitialised
    rw [hblocks, hblocks']
  rcases newInitialised_mirrors blake2b grant .unchecked Argon2.Block.zero Argon2.Block.zero
      (Vector.replicate _ Argon2.Block.zero) (Vector.replicate _ Argon2.Block.zero) key
    with ⟨h, -⟩ | ⟨seedMem, -, h, -⟩
  · exact Or.inl fun scratch uninit => (hunique scratch uninit).trans h
  · exact Or.inr ⟨seedMem, fun scratch uninit => (hunique scratch uninit).trans h⟩

/-- For every key and blob, `hash` returns a digest unless a rejection loop of the key's programs
does not end. With binary64 operations the digest is a function of the two inputs, and the one that
the reference interpreter returns on a host with correctly rounded operations. -/
theorem hash_eq_referenceHash (blake2b : Blake2b) (grant rounds : ℕ) (hrounds : 768 ≤ rounds)
    (key blob : List U8) :
    (∀ scratch uninit,
      (∀ native nearest,
        hash blake2b grant rounds scratch uninit native nearest key blob = .error .rejecting) ∧
      ∀ host, referenceHash blake2b grant rounds scratch uninit host key blob = .error .rejecting) ∨
    ∃ digest, ∀ scratch uninit,
      (∀ native nearest : Nearest, native.IsBinary64 → nearest.IsBinary64 →
        hash blake2b grant rounds scratch uninit native nearest key blob = .ok digest) ∧
      (∀ host : LaneCall → U64, CorrectlyRounded host →
        referenceHash blake2b grant rounds scratch uninit host key blob = .ok digest) := by
  rcases SeedMemory.newInitialised_unique blake2b grant key with h | ⟨seedMem, h⟩
  · left
    intro scratch uninit
    unfold hash referenceHash
    rw [h]
    exact ⟨fun _ _ => rfl, fun _ => rfl⟩
  · right
    obtain ⟨out, -, hoptimized, hreference⟩ :=
      exists_roundingHash blake2b blob hrounds (Vm.size_newVm seedMem)
    refine ⟨out.1, fun scratch uninit => ⟨?_, ?_⟩⟩
    · intro native nearest hnative hnearest
      have hdigest := hoptimized _ (Optimized.correctlyRounded_laneOp hnative hnearest)
      rw [hash, h, ok_bind, hdigest]
      rfl
    · intro host hhost
      rw [referenceHash, h, ok_bind, hreference host hhost]
      rfl

/-- A hash of bytes that the rejection loops accept. -/
def acceptedBlake2b : Blake2b := fun len _ => Vector.replicate len 0xa9

lemma accepting_acceptedBlake2b : (cacheGenerator acceptedBlake2b).Accepting :=
  Superscalar.Blake2Generator.accepting_repeated (by decide) (by decide)

/-- With such a hash, and arithmetic that rounds by definition, both return the digest as soon as
the grant is large enough. -/
lemma hash_eq_referenceHash_accepted :
    ∃ needed, ∀ grant, needed ≤ grant → ∃ digest, ∀ scratch uninit,
      hash acceptedBlake2b grant 768 scratch uninit (.ofArith roundingArith)
          (.ofArith roundingArith) [1, 2, 3] [] = .ok digest ∧
        referenceHash acceptedBlake2b grant 768 scratch uninit roundingArith [1, 2, 3] []
          = .ok digest := by
  obtain ⟨needed, hneeded⟩ :=
    exists_newInitialised accepting_acceptedBlake2b .unchecked [1, 2, 3]
  refine ⟨needed, fun grant hle => ?_⟩
  have hbinary64 := SoftFp.isBinary64_ofArith correctlyRounded_roundingArith
  rcases hash_eq_referenceHash acceptedBlake2b grant 768 le_rfl [1, 2, 3] []
    with hrejecting | ⟨digest, h⟩
  · obtain ⟨seedMem, hseedMem⟩ :=
      hneeded grant hle Argon2.Block.zero (Vector.replicate _ Argon2.Block.zero)
    have hstuck := (hrejecting Argon2.Block.zero (Vector.replicate _ Argon2.Block.zero)).2
      roundingArith
    rw [referenceHash, hseedMem, ok_bind] at hstuck
    exact absurd hstuck (digestOf_ne_rejecting _)
  · refine ⟨digest, fun scratch uninit => ?_⟩
    obtain ⟨hhash, hreference⟩ := h scratch uninit
    exact ⟨hhash _ _ hbinary64 hbinary64, hreference _ correctlyRounded_roundingArith⟩

/-! ## Machines that are used again -/

lemma Machine.mem_of_hashFrom {ops : LaneOps} {rounds : ℕ} {blake2b : Blake2b} {m : Machine}
    {seed : Aes.State} {out : Vector U8 32 × Machine}
    (h : m.hashFrom ops rounds blake2b seed = some out) : out.2.mem = m.mem := by
  have hrun {m m' : Machine} {seed : Aes.State} (h : m.run ops rounds seed = some m') :
      m'.mem = m.mem := by
    obtain ⟨spAddrs, hiterations⟩ := run_eq_some h
    exact (sameSetup_of_iterations hiterations).mem
  unfold hashFrom runs at h
  obtain ⟨last, hruns, hfinish⟩ := Option.bind_eq_some_iff.mp h
  obtain ⟨state, hstate, hlast⟩ := Option.bind_eq_some_iff.mp hruns
  have hmem : state.1.mem = m.mem := by
    apply foldlM_preserves (P := fun state : Machine × Aes.State => state.1.mem = m.mem) _ rfl
      hstate
    intro s k s' hs hstep
    unfold runAndReseed at hstep
    obtain ⟨m', hm', hs'⟩ := Option.bind_eq_some_iff.mp hstep
    obtain rfl := Option.some.inj hs'
    exact (hrun hm').trans hs
  unfold finish at hfinish
  obtain ⟨hash, -, hout⟩ := Option.bind_eq_some_iff.mp hfinish
  obtain rfl := Option.some.inj hout
  exact (hrun hlast).trans hmem

/-- A machine on the memory of a key, whatever else it holds. -/
structure Vm.IsOn (seedMem : SeedMemory) (vm : Vm) : Prop where
  mem : vm.mem = seedMem
  size : vm.scratchpad.size = scratchpadWords

lemma Vm.isOn_newVm (seedMem : SeedMemory) : (newVm seedMem).IsOn seedMem :=
  ⟨rfl, size_newVm seedMem⟩

/-- On all machines with one memory both interpreters return the same digest and end in the same
state, again on that memory. -/
lemma exists_reusedHash (blake2b : Blake2b) (seedMem : SeedMemory) (input : List U8) {rounds : ℕ}
    (hrounds : 768 ≤ rounds) :
    ∃ out : Vector U8 32 × Vm, out.2.IsOn seedMem ∧ ∀ vm : Vm, vm.IsOn seedMem →
      (∀ arith, CorrectlyRounded arith →
        Optimized.calculateHashImpl (fun call => some (arith call)) rounds blake2b vm input
          = some out) ∧
      ∀ host, CorrectlyRounded host →
        Reference.calculateHash host rounds blake2b vm input = some out := by
  obtain ⟨words, last, hfill⟩ := Machine.exists_fill (hashToM128iArray (blake2b 64 input))
  obtain ⟨result, hresult⟩ := Machine.exists_hashFrom roundingArith hrounds blake2b
    (Machine.filled (Vm.newVm seedMem) words) last
  refine ⟨(result.1, result.2.toVm), ⟨Machine.mem_of_hashFrom hresult, ?_⟩, ?_⟩
  · exact result.2.scratchpad.size_toArray
  · intro vm hvm
    obtain ⟨out, hrounding, hoptimized, hreference⟩ :=
      exists_roundingHash blake2b input hrounds hvm.size
    have hmem : vm.mem = (Vm.newVm seedMem).mem := hvm.mem
    have hsame : out = (result.1, result.2.toVm) := by
      rw [Optimized.calculateHashImpl_eq _ rounds blake2b hvm.size input (hfill _ hvm.size),
        Machine.hashFrom_congr hmem, hresult] at hrounding
      exact (Option.some.inj hrounding).symm
    rw [← hsame]
    exact ⟨hoptimized, hreference⟩

end RandomXSp1
