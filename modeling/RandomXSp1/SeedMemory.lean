import RandomXSp1.Argon2.UninitTheorems
import RandomXSp1.Memory
import RandomXSp1.Superscalar.BuildTheorems
import RandomXSp1.Superscalar.RejectionTheorems

/-!
# The seed memory of a key

`SeedMemory::new_initialised` and `init_dataset_item` in each build. The builds share the cache, and
their programs come from the same draws, so all of them derive the dataset of the default build.
-/

namespace RandomXSp1

open Superscalar (Blake2Generator Build Generator ScProgram ScExecInstr ScInstr toNat_offset)

def randomxCacheAccesses : ℕ := 8

/-! ## Programs -/

section
variable {G : Type} (gen : Generator G) (precompute : Bool) (rounds : ℕ)

/-- The loop of `new_initialised`. -/
def cachePrograms : Draw G (List ScProgram) :=
  (List.range randomxCacheAccesses).foldlM
    (fun programs _ => do return programs ++ [← ScProgram.generate gen precompute rounds]) []

lemma aligned_of_decode {instr : ScInstr} {decoded : ScExecInstr}
    (h : ScExecInstr.decode instr = some decoded) : decoded.Aligned := by
  obtain ⟨_, -, hrest⟩ := Option.bind_eq_some_iff.mp h
  obtain ⟨_, hdst, hrest⟩ := Option.bind_eq_some_iff.mp hrest
  obtain ⟨_, hsrc, hreturn⟩ := Option.bind_eq_some_iff.mp hrest
  obtain rfl := Option.some.inj hreturn
  have hdst : 0 ≤ instr.dst ∧ instr.dst < 8 := by simpa [guard] using hdst
  have hsrc : ¬instr.src = -1 → 0 ≤ instr.src ∧ instr.src < 8 := by simpa [guard] using hsrc
  have haligned {i : ℤ} (h0 : 0 ≤ i) (h8 : i < 8) :
      Superscalar.IsRegisterOffset (BitVec.ofInt 8 i * 8) := by
    have hoffset := toNat_offset h0 h8
    unfold Superscalar.IsRegisterOffset
    omega
  refine ⟨haligned hdst.1 hdst.2, ?_⟩
  dsimp only
  by_cases hnone : instr.src = -1
  · rw [if_pos (by omega)]
    exact ⟨rfl, by decide⟩
  · obtain ⟨h0, h8⟩ := hsrc hnone
    rw [if_neg (by omega)]
    exact haligned h0 h8

lemma forall_aligned_of_decode {prog : List ScInstr} {exec : List ScExecInstr}
    (h : prog.mapM ScExecInstr.decode = some exec) : ∀ decoded ∈ exec, decoded.Aligned := by
  induction prog generalizing exec with
  | nil =>
    obtain rfl := Option.some.inj h
    exact fun _ hmem => absurd hmem List.not_mem_nil
  | cons instr prog ih =>
    rw [List.mapM_cons] at h
    obtain ⟨first, hfirst, hrest⟩ := Option.bind_eq_some_iff.mp h
    obtain ⟨rest, htail, hreturn⟩ := Option.bind_eq_some_iff.mp hrest
    obtain rfl := Option.some.inj hreturn
    intro decoded hmem
    rcases List.mem_cons.mp hmem with rfl | hmem
    · exact aligned_of_decode hfirst
    · exact ih htail decoded hmem

/-- Generated programs are executable, in every build. -/
lemma generate_executable : Ensures (ScProgram.generate gen precompute rounds)
    ScProgram.Executable := by
  refine Ensures.trivial.bind fun s _ => ?_
  refine Ensures.trivial.bind fun latencies _ => ?_
  refine Ensures.bind (Ensures.expect fun exec hexec => forall_aligned_of_decode hexec) ?_
  exact fun exec haligned => Ensures.pure ⟨exec, haligned, rfl⟩

lemma cachePrograms_executable : Ensures (cachePrograms gen precompute rounds) fun programs =>
    ∀ program ∈ programs, program.Executable := by
  apply Ensures.foldlM
  · intro programs _ hprograms
    refine (generate_executable gen precompute rounds).bind fun program hprogram => ?_
    apply Ensures.pure
    intro other hmem
    rcases List.mem_append.mp hmem with hmem | hmem
    · exact hprograms other hmem
    · rw [List.mem_singleton.mp hmem]
      exact hprogram
  · exact fun _ hmem => absurd hmem List.not_mem_nil

lemma cachePrograms_alike : Alike (List.Forall₂ ScProgram.Counterpart)
    (cachePrograms gen true rounds) (cachePrograms gen false rounds) := by
  apply Alike.foldlM
  · intro programs programs' _ hprograms
    refine (Superscalar.generate_alike gen rounds).bind ?_
    exact fun program program' hprogram =>
      Alike.pure (List.rel_append hprograms (.cons hprogram .nil))
  · exact .nil

lemma cachePrograms_yields : Yields (cachePrograms gen precompute rounds) fun _ => True := by
  apply Yields.foldlM
  · intro programs _ _
    exact (Superscalar.generate_yields gen precompute rounds).bind fun _ _ => Yields.pure trivial
  · exact trivial

/-- Where the generator accepts, some grant is enough for all programs of a key. -/
lemma exists_cachePrograms (haccepting : gen.Accepting) (g : G) :
    ∃ needed, ∀ rounds, needed ≤ rounds →
      ∃ programs h, cachePrograms gen precompute rounds g = .ok (programs, h) := by
  have hgrows (programs : List ScProgram) (_ : ℕ) : Grows fun rounds => do
      return programs ++ [← ScProgram.generate gen precompute rounds] :=
    (Superscalar.grows_generate gen precompute).bind fun _ => Grows.const _
  have hsettles (programs : List ScProgram) (_ : ℕ) (g : G) : Settles (fun rounds => do
      return programs ++ [← ScProgram.generate gen precompute rounds]) g :=
    (settles_bind_loopless (Superscalar.grows_generate gen precompute)
      fun _ => Loopless.pure _).mpr ((Superscalar.generate_settles gen precompute g).mpr
        (haccepting.rejectionLoopsEnd precompute g))
  have hall : Settles (fun rounds => cachePrograms gen precompute rounds) g :=
    settles_foldlM hgrows hsettles (List.range randomxCacheAccesses) [] g
  have hallGrows : Grows fun rounds => cachePrograms gen precompute rounds :=
    grows_foldlM hgrows (List.range randomxCacheAccesses) []
  obtain ⟨result, hresult, needed, hneeded⟩ := hall.exists_forall hallGrows
  refine ⟨needed, fun rounds hle => ?_⟩
  have hrounds : cachePrograms gen precompute rounds g ≠ .error .rejecting := by
    rw [hneeded rounds hle]
    exact hresult
  obtain ⟨programs, h, hprograms, -⟩ :=
    (cachePrograms_yields gen precompute rounds).returns hrounds
  exact ⟨programs, h, hprograms⟩

/-- A program that does in a build what another one does in the default build. -/
structure ScProgram.Mirrors (build : Build) (program program' : ScProgram) : Prop where
  execute : ∀ ds, program'.execute build ds = program.execute .unchecked ds
  addressReg : program'.addressReg = program.addressReg

lemma cachePrograms_mirrors (build : Build) : Alike (List.Forall₂ (ScProgram.Mirrors build))
    (cachePrograms gen true rounds) (cachePrograms gen build.precomputesReciprocal rounds) := by
  have halike := cachePrograms_alike gen rounds
  cases build
  case plain =>
    refine halike.mono fun programs programs' h => h.imp ?_
    exact fun program program' h => ⟨fun ds => (h.execute_eq .plain ds).1, h.addressReg⟩
  -- the other builds generate the programs of the default build
  all_goals
    refine Alike.of_ensures (halike.ensures.mono ?_)
    rintro programs ⟨programs', h⟩
    induction h with
    | nil => exact .nil
    | cons h _ ih => exact .cons ⟨fun ds => (h.execute_eq _ ds).1, rfl⟩ ih

end

/-! ## Memories -/

section
variable (blake2b : (len : ℕ) → List U8 → Vector U8 len) (rounds : ℕ)

/-- The generator of `new_initialised`. -/
def cacheGenerator : Generator Blake2Generator :=
  Blake2Generator.generator fun data => blake2b _ data.toList

/-- `SeedMemory::new_initialised`, with the contents of the uninitialised allocations. -/
def SeedMemory.newInitialised (build : Build) (scratch : Argon2.Block) (uninit : Argon2.Memory)
    (key : List U8) : Except Fault SeedMemory :=
  match Argon2.initializeRandomx scratch blake2b uninit key with
  | none => .error .panic
  | some blocks =>
    match hprograms : cachePrograms (cacheGenerator blake2b) build.precomputesReciprocal rounds
        (Blake2Generator.new key 0) with
    | .error fault => .error fault
    | .ok (programs, _) => .ok {
        blocks := blocks.toArray
        programs
        valid := Or.inr ⟨blocks.size_toArray,
          cachePrograms_executable _ _ _ _ _ _ hprograms⟩ }

section
variable {blake2b : (len : ℕ) → List U8 → Vector U8 len} {rounds : ℕ} {build : Build}
  {scratch : Argon2.Block} {uninit : Argon2.Memory} {key : List U8} {blocks : Argon2.Memory}
  (hblocks : Argon2.initializeRandomx scratch blake2b uninit key = some blocks)
include hblocks

lemma newInitialised_of_error {fault : Fault}
    (h : cachePrograms (cacheGenerator blake2b) build.precomputesReciprocal rounds
      (Blake2Generator.new key 0) = .error fault) :
    SeedMemory.newInitialised blake2b rounds build scratch uninit key = .error fault := by
  unfold SeedMemory.newInitialised
  rw [hblocks]
  dsimp only
  split
  · rename_i hprograms
    rw [h] at hprograms
    rw [Except.error.inj hprograms]
  · rename_i hprograms
    rw [h] at hprograms
    exact absurd hprograms nofun

lemma newInitialised_of_ok {programs : List ScProgram} {g : Blake2Generator}
    (h : cachePrograms (cacheGenerator blake2b) build.precomputesReciprocal rounds
      (Blake2Generator.new key 0) = .ok (programs, g)) :
    ∃ seedMem, SeedMemory.newInitialised blake2b rounds build scratch uninit key = .ok seedMem ∧
      seedMem.blocks = blocks.toArray ∧ seedMem.programs = programs := by
  unfold SeedMemory.newInitialised
  rw [hblocks]
  dsimp only
  split
  · rename_i hprograms
    rw [h] at hprograms
    exact absurd hprograms nofun
  · rename_i hprograms
    rw [h] at hprograms
    obtain ⟨rfl, rfl⟩ := Prod.ext_iff.mp (Except.ok.inj hprograms)
    exact ⟨_, rfl, rfl, rfl⟩

end

/-- A hash whose programs are accepted has a memory for every key, once the grant is large enough. -/
lemma exists_newInitialised {blake2b : (len : ℕ) → List U8 → Vector U8 len}
    (haccepting : (cacheGenerator blake2b).Accepting) (build : Build) (key : List U8) :
    ∃ needed, ∀ rounds, needed ≤ rounds → ∀ scratch uninit, ∃ seedMem,
      SeedMemory.newInitialised blake2b rounds build scratch uninit key = .ok seedMem := by
  obtain ⟨needed, hneeded⟩ := exists_cachePrograms (cacheGenerator blake2b)
    build.precomputesReciprocal haccepting (Blake2Generator.new key 0)
  refine ⟨needed, fun rounds hle scratch uninit => ?_⟩
  obtain ⟨programs, g, hprograms⟩ := hneeded rounds hle
  obtain ⟨blocks, _, -, hblocks, -⟩ := Argon2.initializeRandomx_records blake2b key scratch uninit
  obtain ⟨seedMem, hseedMem, -, -⟩ := newInitialised_of_ok hblocks hprograms
  exact ⟨seedMem, hseedMem⟩

end

namespace SeedMemory

section
variable (build : Build) (seedMem : SeedMemory)

/-- One program of `init_dataset_item` in a build. -/
def itemStepIn (state : Vector U64 8 × U64) (prog : ScProgram) :
    Option (Vector U64 8 × U64) := do
  let ds ← prog.execute build state.1
  let ds ← seedMem.mixItem state.2 ds
  return (ds, ds[prog.addressReg])

/-- The item before the first program, from its first word. -/
def initialItem (ds0 : U64) : Vector U64 8 :=
  #v[ds0, ds0 ^^^ superscalarAdd1, ds0 ^^^ superscalarAdd2, ds0 ^^^ superscalarAdd3,
    ds0 ^^^ superscalarAdd4, ds0 ^^^ superscalarAdd5, ds0 ^^^ superscalarAdd6,
    ds0 ^^^ superscalarAdd7]

def initDatasetItemIn (itemNum : U64) : Option (Vector U64 8) := do
  let ds := initialItem ((itemNum + 1) * superscalarMul0)
  let state ← seedMem.programs.foldlM (seedMem.itemStepIn build) (ds, itemNum)
  return state.1

end

lemma mixItem_congr {seedMem seedMem' : SeedMemory} (h : seedMem'.blocks = seedMem.blocks)
    (regValue : U64) (ds : Vector U64 8) :
    seedMem'.mixItem regValue ds = seedMem.mixItem regValue ds := by
  unfold mixItem mixBlockValue
  rw [h]

/-- Items depend on the cache and on what the programs do. -/
lemma initDatasetItemIn_of_mirrors {build : Build} {seedMem seedMem' : SeedMemory}
    (hblocks : seedMem'.blocks = seedMem.blocks)
    (hprograms : List.Forall₂ (ScProgram.Mirrors build) seedMem.programs seedMem'.programs)
    (itemNum : U64) :
    seedMem'.initDatasetItemIn build itemNum = seedMem.initDatasetItem itemNum := by
  have hloop (state : Vector U64 8 × U64) :
      seedMem'.programs.foldlM (seedMem'.itemStepIn build) state
        = seedMem.programs.foldlM seedMem.itemStep state := by
    generalize seedMem.programs = programs, seedMem'.programs = programs' at hprograms
    induction hprograms generalizing state with
    | nil => rfl
    | @cons program program' _ _ h _ ih =>
      have hstep : seedMem'.itemStepIn build state program' = seedMem.itemStep state program := by
        unfold itemStepIn itemStep
        simp only [h.execute, h.addressReg, mixItem_congr hblocks]
        rfl
      simp only [List.foldlM_cons, hstep, ih]
  unfold initDatasetItemIn initDatasetItem
  simp only [hloop]
  rfl

/-- Against the default build: no memory, or one with the same items. -/
lemma newInitialised_mirrors (blake2b : (len : ℕ) → List U8 → Vector U8 len) (rounds : ℕ)
    (build : Build) (scratch scratch' : Argon2.Block) (uninit uninit' : Argon2.Memory)
    (key : List U8) :
    (newInitialised blake2b rounds .unchecked scratch uninit key = .error .rejecting ∧
      newInitialised blake2b rounds build scratch' uninit' key = .error .rejecting) ∨
    ∃ seedMem seedMem', newInitialised blake2b rounds .unchecked scratch uninit key = .ok seedMem ∧
      newInitialised blake2b rounds build scratch' uninit' key = .ok seedMem' ∧
      ∀ itemNum, seedMem'.initDatasetItemIn build itemNum = seedMem.initDatasetItem itemNum := by
  obtain ⟨blocks, _, hchecked, hblocks, -⟩ :=
    Argon2.initializeRandomx_records blake2b key scratch uninit
  obtain ⟨blocks', _, hchecked', hblocks', -⟩ :=
    Argon2.initializeRandomx_records blake2b key scratch' uninit'
  -- the blocks do not depend on what was in memory
  obtain rfl : blocks = blocks' :=
    (Prod.ext_iff.mp (Option.some.inj (hchecked.symm.trans hchecked'))).1
  have hyields := cachePrograms_yields (cacheGenerator blake2b) true rounds
    (Blake2Generator.new key 0)
  have hmirrors := cachePrograms_mirrors (cacheGenerator blake2b) rounds build
    (Blake2Generator.new key 0)
  cases hprograms : cachePrograms (cacheGenerator blake2b) true rounds
      (Blake2Generator.new key 0) with
  | error fault =>
    rw [hprograms] at hyields hmirrors
    obtain rfl : fault = .rejecting := hyields
    generalize hprograms' : cachePrograms (cacheGenerator blake2b) build.precomputesReciprocal
      rounds (Blake2Generator.new key 0) = result at hmirrors
    cases hmirrors
    exact Or.inl ⟨newInitialised_of_error hblocks hprograms,
      newInitialised_of_error hblocks' hprograms'⟩
  | ok result =>
    obtain ⟨programs, g⟩ := result
    rw [hprograms] at hmirrors
    generalize hprograms' : cachePrograms (cacheGenerator blake2b) build.precomputesReciprocal
      rounds (Blake2Generator.new key 0) = result at hmirrors
    cases hmirrors with
    | @ok _ programs' hmirrors =>
      have hunchecked : cachePrograms (cacheGenerator blake2b)
          Build.unchecked.precomputesReciprocal rounds (Blake2Generator.new key 0)
            = .ok (programs, g) := hprograms
      obtain ⟨seedMem, hseedMem, hcache, rfl⟩ := newInitialised_of_ok hblocks hunchecked
      obtain ⟨seedMem', hseedMem', hcache', rfl⟩ := newInitialised_of_ok hblocks' hprograms'
      exact Or.inr ⟨seedMem, seedMem', hseedMem, hseedMem',
        initDatasetItemIn_of_mirrors (hcache'.trans hcache.symm) hmirrors⟩

/-- Whatever its features and what its allocations held before, the crate derives the same dataset
from a key: every build returns each item, without a panic or an access outside the cache, unless
all builds are stuck in the same rejection loop. -/
theorem initDatasetItem_builds (blake2b : (len : ℕ) → List U8 → Vector U8 len) (rounds : ℕ)
    (key : List U8) :
    (∀ build scratch uninit,
      newInitialised blake2b rounds build scratch uninit key = .error .rejecting) ∨
    ∃ items : U64 → Vector U64 8, ∀ build scratch uninit, ∃ seedMem,
      newInitialised blake2b rounds build scratch uninit key = .ok seedMem ∧
      ∀ itemNum, seedMem.initDatasetItemIn build itemNum = some (items itemNum) := by
  have hagree (build : Build) := newInitialised_mirrors blake2b rounds build Argon2.Block.zero
  cases hdefault : newInitialised blake2b rounds .unchecked Argon2.Block.zero
      (Vector.replicate _ Argon2.Block.zero) key with
  | error fault =>
    left
    intro build scratch uninit
    rcases hagree build scratch _ uninit key with ⟨-, h⟩ | ⟨_, _, hok, -⟩
    · exact h
    · exact absurd (hdefault.symm.trans hok) nofun
  | ok seedMem =>
    right
    choose items hitems using seedMem.exists_initDatasetItem
    refine ⟨items, ?_⟩
    intro build scratch uninit
    rcases hagree build scratch _ uninit key with ⟨herror, -⟩ | ⟨_, seedMem', hok, h, hitem⟩
    · exact absurd (hdefault.symm.trans herror) nofun
    · obtain rfl := Except.ok.inj (hdefault.symm.trans hok)
      exact ⟨seedMem', h, fun itemNum => (hitem itemNum).trans (hitems itemNum)⟩

end SeedMemory

end RandomXSp1
