import RandomXSp1.Vm.Machine

/-!
# From instruction words to operations

The fields of an instruction word, the operation it encodes, and the bookkeeping of register
usage. An operation marks the registers it writes with its index, and a branch marks all of them,
so a branch jumps back behind the last write of its register and behind the last branch.
-/

namespace RandomXSp1

/-! ## Instruction words -/

def opcodeField (raw : U64) : ℕ := (raw &&& 0xff).toNat
def dstField (raw : U64) : ℕ := ((raw >>> 8) &&& 0xff).toNat
def srcField (raw : U64) : ℕ := ((raw >>> 16) &&& 0xff).toNat
def modifierField (raw : U64) : U8 := ((raw >>> 24) &&& 0xff).setWidth 8
def immField (raw : U64) : U32 := (raw >>> 32).setWidth 32

/-- The level of an operand addressed by a register. -/
def levelOf (modifier : U8) : Level := if modifier &&& 3 = 0 then .l2 else .l1

def conditionOf (modifier : U8) : Fin 16 := Fin.ofNat 16 (modifier >>> 4).toNat

/-- A register as the source, or the immediate where that register is the destination. -/
def regOrImm (dst src : Fin 8) (imm32 : U32) : Operand :=
  if dst = src then .imm (u64FromI32Imm imm32) else .reg src

def registerAddress (src : Fin 8) (imm32 : U32) (modifier : U8) : Address :=
  ⟨some src, u64FromI32Imm imm32, levelOf modifier⟩

/-- The scratchpad operand of an integer operation. -/
def memoryOperand (dst src : Fin 8) (imm32 : U32) (modifier : U8) : Address :=
  if dst = src then ⟨none, imm32.setWidth 64, .l3⟩ else registerAddress src imm32 modifier

/-- The destination of a store. -/
def storeAddress (dst : Fin 8) (imm32 : U32) (modifier : U8) : Address :=
  ⟨some dst, u64FromI32Imm imm32, if 14 ≤ conditionOf modifier then .l3 else levelOf modifier⟩

/-- The operation of a word. The opcodes are the ranges of both decoders. -/
def decodeOp (raw : U64) (usage : Vector ℤ 8) : Op :=
  let op := opcodeField raw
  let dst := Fin.ofNat 8 (dstField raw)
  let src := Fin.ofNat 8 (srcField raw)
  let dstF := Fin.ofNat 4 (dstField raw)
  let srcF := Fin.ofNat 4 (srcField raw)
  let modifier := modifierField raw
  let imm32 := immField raw
  let address := registerAddress src imm32 modifier
  let memory := memoryOperand dst src imm32 modifier
  if op < 0x10 then
    .addShifted dst src ((modifier >>> 2) &&& 3) (if dst = 5 then u64FromI32Imm imm32 else 0)
  else if op < 0x17 then .int .add dst (.mem memory)
  else if op < 0x27 then .int .sub dst (regOrImm dst src imm32)
  else if op < 0x2e then .int .sub dst (.mem memory)
  else if op < 0x3e then .int .mul dst (regOrImm dst src imm32)
  else if op < 0x42 then .int .mul dst (.mem memory)
  else if op < 0x46 then .int .mulh dst (.reg src)
  else if op < 0x47 then .int .mulh dst (.mem memory)
  else if op < 0x4b then .int .smulh dst (.reg src)
  else if op < 0x4c then .int .smulh dst (.mem memory)
  else if op < 0x54 then
    if isZeroOrPowerOf2 (imm32.setWidth 64) then .nop
    else .mulRcp dst ((randomxReciprocal (imm32.setWidth 64)).getD 0)
  else if op < 0x56 then .neg dst
  else if op < 0x65 then .int .xor dst (regOrImm dst src imm32)
  else if op < 0x6a then .int .xor dst (.mem memory)
  else if op < 0x72 then .int .ror dst (regOrImm dst src (imm32 &&& 63))
  else if op < 0x74 then .int .rol dst (regOrImm dst src (imm32 &&& 63))
  else if op < 0x78 then if src = dst then .nop else .swap dst src
  else if op < 0x7c then if 4 ≤ dst then .swapE dstF else .swapF dstF
  else if op < 0x8c then .addF dstF (.reg srcF)
  else if op < 0x91 then .addF dstF (.mem address)
  else if op < 0xa1 then .subF dstF (.reg srcF)
  else if op < 0xa6 then .subF dstF (.mem address)
  else if op < 0xac then .scaleF dstF
  else if op < 0xcc then .mulE dstF srcF
  else if op < 0xd0 then .divE dstF address
  else if op < 0xd6 then .sqrtE dstF
  else if op < 0xef then .branch dst imm32 (conditionOf modifier) usage[dst]
  else if op < 0xf0 then .round src (imm32 &&& 63).toNat
  else if op < 0x100 then
    .store (storeAddress dst imm32 modifier) src
  else .nop

/-! ## Register usage -/

/-- The usage after an operation: each register it writes carries its index, and after a branch
every register does. -/
def Op.marks (op : Op) (index : ℤ) (usage : Vector ℤ 8) : Vector ℤ 8 :=
  if op.isBranch then Vector.replicate 8 index
  else op.writes.foldl (fun usage (i : Fin 8) => usage.setFin i index) usage

/-- The operations of a program, from the one at `index`. -/
def decodeOps (index : ℤ) (usage : Vector ℤ 8) : List U64 → List Op
  | [] => []
  | raw :: rest =>
    let op := decodeOp raw usage
    op :: decodeOps (index + 1) (op.marks index usage) rest

lemma length_decodeOps (index : ℤ) (usage : Vector ℤ 8) (words : List U64) :
    (decodeOps index usage words).length = words.length := by
  induction words generalizing index usage with
  | nil => rfl
  | cons raw rest ih => exact congrArg (· + 1) (ih _ _)

/-- An operation that neither jumps nor writes the register. -/
def Op.Leaves (op : Op) (i : Fin 8) : Prop := op.isBranch = false ∧ i ∉ op.writes

lemma getElem_foldl_set {index : ℤ} {written : List (Fin 8)} {usage : Vector ℤ 8} (i : Fin 8) :
    (written.foldl (fun usage (j : Fin 8) => usage.setFin j index) usage)[i]
      = if i ∈ written then index else usage[i] := by
  induction written generalizing usage with
  | nil => rfl
  | cons j written ih =>
    rw [List.foldl_cons, ih]
    by_cases hij : i = j
    · subst hij
      have hset : (usage.setFin i index)[i] = index := Vector.getElem_set_self i.isLt
      rw [hset, ite_self, if_pos List.mem_cons_self]
    · have hset : (usage.setFin j index)[i] = usage[i] :=
        Vector.getElem_set_ne j.isLt i.isLt (fun h => hij (Fin.ext h).symm)
      rw [hset]
      simp [hij]

lemma Op.getElem_marks (op : Op) (index : ℤ) (usage : Vector ℤ 8) (i : Fin 8) :
    (op.isBranch ∨ i ∈ op.writes) ∧ (op.marks index usage)[i] = index
      ∨ op.Leaves i ∧ (op.marks index usage)[i] = usage[i] := by
  unfold marks Leaves
  by_cases hb : op.isBranch
  · rw [if_pos hb]
    left
    refine ⟨Or.inl hb, ?_⟩
    show (Vector.replicate 8 index)[(i : ℕ)] = index
    exact Vector.getElem_replicate i.isLt
  · rw [if_neg hb, getElem_foldl_set]
    by_cases hw : i ∈ op.writes
    · exact Or.inl ⟨Or.inr hw, if_pos hw⟩
    · exact Or.inr ⟨⟨by simpa using hb, hw⟩, if_neg hw⟩

/-- The usage of a register is an index before the next instruction, and whatever lies behind it
leaves the register alone. -/
def UsageSound (ops : List Op) (usage : Vector ℤ 8) : Prop :=
  ∀ i : Fin 8, -1 ≤ usage[i] ∧ usage[i] < ops.length ∧
    ∀ (k : ℕ) (op : Op), ops[k]? = some op → usage[i] < k → op.Leaves i

/-- Every branch jumps to an earlier index, and whatever lies between leaves its register alone. -/
def TargetsSound (ops : List Op) : Prop :=
  ∀ (i : ℕ) (dst : Fin 8) (imm : U32) (condition : Fin 16) (target : ℤ),
    ops[i]? = some (.branch dst imm condition target) →
      -1 ≤ target ∧ target < i ∧
        ∀ (k : ℕ) (op : Op), ops[k]? = some op → target < k → k < i → op.Leaves dst

lemma usageSound_nil : UsageSound [] (Vector.replicate 8 (-1)) := by
  intro i
  have hget : (Vector.replicate 8 (-1 : ℤ))[i] = -1 := Vector.getElem_replicate i.isLt
  rw [hget]
  refine ⟨le_rfl, by simp, ?_⟩
  intro k op hop
  exact absurd hop (by simp)

section
variable {ops : List Op} {usage : Vector ℤ 8}

lemma UsageSound.append (h : UsageSound ops usage) (op : Op) :
    UsageSound (ops ++ [op]) (op.marks ops.length usage) := by
  intro i
  obtain ⟨hlow, hhigh, hbetween⟩ := h i
  rw [List.length_append, List.length_singleton, Nat.cast_add, Nat.cast_one]
  rcases op.getElem_marks ops.length usage i with ⟨-, hget⟩ | ⟨hleaves, hget⟩
  · -- the register is marked, so nothing lies behind its usage
    rw [hget]
    refine ⟨by omega, by omega, ?_⟩
    intro k op' hop hk
    have hlt := (List.getElem?_eq_some_iff.mp hop).1
    rw [List.length_append, List.length_singleton] at hlt
    omega
  · rw [hget]
    refine ⟨hlow, by omega, ?_⟩
    intro k op' hop hk
    by_cases hlast : k < ops.length
    · rw [List.getElem?_append_left hlast] at hop
      exact hbetween k op' hop hk
    · rw [List.getElem?_append_right (by omega)] at hop
      obtain rfl := List.mem_singleton.mp (List.mem_of_getElem? hop)
      exact hleaves

/-- A branch takes its target from the usage of its register. -/
def Op.JumpsTo (usage : Vector ℤ 8) : Op → Prop
  | branch dst _ _ target => target = usage[dst]
  | _ => True

lemma jumpsTo_decodeOp (raw : U64) (usage : Vector ℤ 8) : (decodeOp raw usage).JumpsTo usage := by
  unfold decodeOp
  dsimp only
  repeat'
    first
    | refine iteInduction (motive := Op.JumpsTo usage) (fun _ => ?_) (fun _ => ?_)
    | exact trivial
    | exact rfl

lemma TargetsSound.append (h : TargetsSound ops) (husage : UsageSound ops usage) (raw : U64) :
    TargetsSound (ops ++ [decodeOp raw usage]) := by
  intro i dst imm condition target hi
  by_cases hlast : i < ops.length
  · rw [List.getElem?_append_left hlast] at hi
    obtain ⟨hlow, hhigh, hbetween⟩ := h i dst imm condition target hi
    refine ⟨hlow, hhigh, ?_⟩
    intro k op hop hk hki
    rw [List.getElem?_append_left (by omega)] at hop
    exact hbetween k op hop hk hki
  · have hlt := (List.getElem?_eq_some_iff.mp hi).1
    rw [List.length_append, List.length_singleton] at hlt
    obtain rfl : i = ops.length := by omega
    rw [List.getElem?_append_right le_rfl, Nat.sub_self] at hi
    have htarget := jumpsTo_decodeOp raw usage
    rw [Option.some.inj hi] at htarget
    rw [show target = usage[dst] from htarget]
    obtain ⟨hlow, hhigh, hbetween⟩ := husage dst
    refine ⟨hlow, hhigh, ?_⟩
    intro k op hop hk hki
    rw [List.getElem?_append_left hki] at hop
    exact hbetween k op hop hk

/-- The branches of the rest of a program, after the operations before it. -/
lemma targetsSound_append_decodeOps (words : List U64) (h : TargetsSound ops)
    (husage : UsageSound ops usage) :
    TargetsSound (ops ++ decodeOps ops.length usage words) := by
  induction words generalizing ops usage with
  | nil =>
    rw [decodeOps, List.append_nil]
    exact h
  | cons raw rest ih =>
    have hrest := ih (h.append husage raw) (husage.append (decodeOp raw usage))
    rw [List.length_append, List.length_singleton, Nat.cast_add, Nat.cast_one,
      List.append_assoc] at hrest
    exact hrest

end

/-- The branches of a decoded program. -/
theorem targetsSound_decodeOps (words : List U64) :
    TargetsSound (decodeOps 0 (Vector.replicate 8 (-1)) words) := by
  have hnil : TargetsSound [] := by
    intro i dst imm condition target hi
    exact absurd hi (by simp)
  exact targetsSound_append_decodeOps words hnil usageSound_nil

end RandomXSp1
