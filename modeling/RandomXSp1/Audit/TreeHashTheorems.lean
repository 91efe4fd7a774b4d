import RandomXSp1.Audit.Monero
import RandomXSp1.LeafTree

/-!
# The tree hash

`tree_hash` computes the root of one binary tree over the hashes. The buffer holds the folds of a
row of trees; its first row mixes leaves with pairs, and every pass over it joins the row in
pairs, in place.
-/

namespace RandomXSp1.Audit

open LeafTree (leaf node pairUp leavesAt)

/-! ## The length of the first row -/

/-- The largest power of two below the count. -/
lemma whileLoop_levelLen {count j : ℕ} (hj : 2 ^ j < count) {rounds : ℕ}
    (hrounds : count ≤ 2 ^ j + rounds) :
    ∃ e, j ≤ e ∧ 2 ^ e < count ∧ count ≤ 2 ^ (e + 1) ∧
      whileLoop (fun levelLen => decide (levelLen * 2 < count))
        (fun levelLen => some (levelLen * 2)) rounds (2 ^ j) = some (2 ^ e) := by
  induction rounds generalizing j with
  | zero => omega
  | succ rounds ih =>
    unfold whileLoop
    by_cases h : 2 ^ j * 2 < count
    · rw [if_pos (decide_eq_true h), Option.bind_some, ← pow_succ]
      have hpos : 0 < 2 ^ j := Nat.two_pow_pos j
      obtain ⟨e, hle, hlt, hcount, hloop⟩ := ih (j := j + 1) h (by rw [pow_succ]; omega)
      exact ⟨e, by omega, hlt, hcount, hloop⟩
    · rw [if_neg (by simpa using h)]
      exact ⟨j, le_rfl, hj, by rw [pow_succ]; omega, rfl⟩

section
variable (cnFastHash : List U8 → Hash)

/-- The buffer starts with the folds of the row. -/
def HoldsRow (level : List Hash) (row : List (LeafTree Hash)) : Prop :=
  ∀ i < row.length, level[i]? = (row[i]?).map (LeafTree.fold (hashPair cnFastHash))

/-! ## A pass over the buffer -/

/-- A pass joins the row in pairs. What it reads at `2 * i` it did not write before. -/
lemma foldLevel_holdsRow {level : List Hash} {row : List (LeafTree Hash)} {m : ℕ}
    (hlength : row.length = 2 * m) (hlevel : row.length ≤ level.length)
    (hrow : HoldsRow cnFastHash level row) :
    ∃ level', foldLevel cnFastHash (level, row.length) = some (level', m) ∧
      level'.length = level.length ∧ HoldsRow cnFastHash level' (pairUp row) := by
  -- before round `k`: new entries below `k`, and the old ones from `k` on, so those that are still read
  let joined (i : ℕ) : Option Hash :=
    ((pairUp row)[i]?).map (LeafTree.fold (hashPair cnFastHash))
  let invariant (k : ℕ) (level' : List Hash) : Prop := level'.length = level.length ∧
    (∀ i < k, level'[i]? = joined i) ∧ ∀ i, k ≤ i → level'[i]? = level[i]?
  have init : invariant 0 level := ⟨rfl, fun i hi => absurd hi (Nat.not_lt_zero i), fun _ _ => rfl⟩
  have loop := foldlM_range'_invariant (n := m) (f := foldStep cnFastHash) (P := invariant)
    ?step init
  case step =>
    intro k level' _ hk ⟨hlen, hnew, hold⟩
    -- round `k` reads at `2 * k` and `2 * k + 1`, which are not below `k`
    have hread (i : ℕ) (hi : i < row.length) (hki : k ≤ i) :
        ∃ t, row[i]? = some t ∧ level'[i]? = some (t.fold (hashPair cnFastHash)) := by
      refine ⟨row.get ⟨i, hi⟩, List.getElem?_eq_getElem hi, ?_⟩
      rw [hold i hki, hrow i hi, List.getElem?_eq_getElem hi]
      rfl
    obtain ⟨left, hleft, hreadLeft⟩ := hread (2 * k) (by omega) (by omega)
    obtain ⟨right, hright, hreadRight⟩ := hread (2 * k + 1) (by omega) (by omega)
    refine ⟨level'.set k ((node left right).fold (hashPair cnFastHash)), ?_, ?_, ?_, ?_⟩
    · unfold foldStep
      rw [hreadLeft, hreadRight]
      rfl
    · rw [List.length_set, hlen]
    · intro i hi
      by_cases hik : i = k
      · rw [hik, List.getElem?_set_self (by omega)]
        unfold joined
        rw [LeafTree.getElem?_pairUp hleft hright]
        rfl
      · rw [List.getElem?_set_ne (Ne.symm hik), hnew i (by omega)]
    · intro i hi
      rw [List.getElem?_set_ne (by omega), hold i (by omega)]
  obtain ⟨level', hloop, hlen, hnew, -⟩ := loop
  refine ⟨level', ?_, hlen, ?_⟩
  · unfold foldLevel
    dsimp only
    rw [hlength, Nat.mul_div_cancel_left m (by norm_num), List.range_eq_range', hloop]
    rfl
  · intro i hi
    rw [LeafTree.length_pairUp, hlength, Nat.mul_div_cancel_left m (by norm_num)] at hi
    exact hnew i (by omega)

/-- The passes leave a row of two trees. -/
lemma whileLoop_foldLevel {e : ℕ} {level : List Hash} {row : List (LeafTree Hash)}
    (hlength : row.length = 2 ^ (e + 1)) (hlevel : row.length ≤ level.length)
    (hrow : HoldsRow cnFastHash level row) {rounds : ℕ} (hrounds : e ≤ rounds) :
    ∃ level' left right, whileLoop (fun state => decide (2 < state.2)) (foldLevel cnFastHash)
        rounds (level, row.length) = some (level', 2) ∧
      HoldsRow cnFastHash level' [left, right] ∧
      (node left right).leavesAt 0 = row.flatMap (leavesAt (e + 1)) := by
  induction e generalizing level row rounds with
  | zero =>
    match row, hlength with
    | [left, right], _ =>
      refine ⟨level, left, right, ?_, hrow, ?_⟩
      · have hnot : ¬(decide (2 < [left, right].length)) = true := by simp
        cases rounds with
        | zero => exact if_neg hnot
        | succ rounds => exact if_neg hnot
      · simp [leavesAt]
  | succ e ih =>
    obtain ⟨rounds, rfl⟩ := Nat.exists_eq_add_of_le' (show 1 ≤ rounds by omega)
    have hpow : 2 ^ (e + 1 + 1) = 2 * 2 ^ (e + 1) := by ring
    obtain ⟨level', hpass, hlen, hrow'⟩ := foldLevel_holdsRow cnFastHash
      (hlength.trans hpow) hlevel hrow
    -- a pass halves the row, and the leaves stay under it
    have hlength' : (pairUp row).length = 2 ^ (e + 1) := by
      rw [LeafTree.length_pairUp]
      omega
    obtain ⟨final, left, right, hloop, hfinal, hleaves⟩ := ih hlength' (by omega) hrow'
      (show e ≤ rounds by omega)
    refine ⟨final, left, right, ?_, hfinal, ?_⟩
    · have hgo : decide (2 < row.length) = true := by
        have hpos : 1 < 2 ^ (e + 1) := Nat.one_lt_two_pow (by omega)
        rw [decide_eq_true_eq]
        omega
      unfold whileLoop
      rw [if_pos hgo, hpass, Option.bind_some, ← hlength']
      exact hloop
    · rw [hleaves, LeafTree.flatMap_leavesAt_pairUp (by omega)]

/-! ## The first row -/

/-- The leaves that are copied, and the pairs of the others. -/
def firstRow (hashes : List Hash) (direct : ℕ) : List (LeafTree Hash) :=
  (hashes.take direct).map leaf ++ pairUp ((hashes.drop direct).map leaf)

section
variable {hashes : List Hash} {direct levelLen : ℕ}
  (hcount : hashes.length = direct + 2 * (levelLen - direct))
include hcount

/-- The copied leaves are at the depth of the row, the others one level below. -/
lemma flatMap_leavesAt_firstRow (depth : ℕ) :
    (firstRow hashes direct).flatMap (leavesAt depth)
      = (hashes.take direct).map (fun hash => (hash, depth))
        ++ (hashes.drop direct).map fun hash => (hash, depth + 1) := by
  have heven : ((hashes.drop direct).map leaf).length % 2 = 0 := by
    rw [List.length_map, List.length_drop]
    omega
  unfold firstRow
  rw [List.flatMap_append, LeafTree.flatMap_leavesAt_leaf, LeafTree.flatMap_leavesAt_pairUp heven,
    LeafTree.flatMap_leavesAt_leaf]

lemma getElem?_firstRow_of_lt {i : ℕ} (hi : i < direct) :
    ((firstRow hashes direct)[i]?).map (LeafTree.fold (hashPair cnFastHash)) = hashes[i]? := by
  have hlt : i < ((hashes.take direct).map leaf).length := by
    rw [List.length_map, List.length_take]
    omega
  unfold firstRow
  rw [List.getElem?_append_left hlt, List.getElem?_map, List.getElem?_take_of_lt hi]
  cases hashes[i]? <;> rfl

variable (hdirect : direct ≤ levelLen)
include hdirect

lemma length_firstRow : (firstRow hashes direct).length = levelLen := by
  unfold firstRow
  rw [List.length_append, List.length_map, List.length_take, LeafTree.length_pairUp,
    List.length_map, List.length_drop]
  omega

/-- The loop that hashes the last leaves in pairs succeeds, and completes the first row. -/
lemma foldlM_pairStep :
    ∃ level, (List.range' direct (levelLen - direct)).foldlM (pairStep cnFastHash hashes)
        (hashes.take direct ++ List.replicate (levelLen - direct) (Vector.replicate _ 0), direct)
          = some (level, hashes.length) ∧
      level.length = levelLen ∧ HoldsRow cnFastHash level (firstRow hashes direct) := by
  let entry (i : ℕ) : Option Hash :=
    ((firstRow hashes direct)[i]?).map (LeafTree.fold (hashPair cnFastHash))
  -- the source index runs twice as fast as `k`, and the entries below `k` are there
  let invariant (k : ℕ) (state : List Hash × ℕ) : Prop := state.2 = direct + 2 * (k - direct) ∧
    state.1.length = levelLen ∧ ∀ i < k, state.1[i]? = entry i
  have init : invariant direct
      (hashes.take direct ++ List.replicate (levelLen - direct) (Vector.replicate _ 0), direct) := by
    refine ⟨?_, ?_, ?_⟩
    · show direct = _
      omega
    · show (hashes.take direct ++ _).length = _
      rw [List.length_append, List.length_take, List.length_replicate]
      omega
    · intro i hi
      unfold entry
      rw [getElem?_firstRow_of_lt cnFastHash hcount hi, List.getElem?_append_left
        (by rw [List.length_take]; omega), List.getElem?_take_of_lt hi]
  have loop := foldlM_range'_invariant (n := levelLen - direct)
    (f := pairStep cnFastHash hashes) (P := invariant) ?step init
  case step =>
    intro k state hk hk' ⟨hsource, hlen, hold⟩
    obtain ⟨level, source⟩ := state
    dsimp only at hsource hlen hold
    have hread (i : ℕ) (hi : i < hashes.length) : hashes[i]? = some (hashes.get ⟨i, hi⟩) :=
      List.getElem?_eq_getElem hi
    have hleft := hread source (by omega)
    have hright := hread (source + 1) (by omega)
    have hleaf (i : ℕ) (hash : Hash) (h : hashes[direct + i]? = some hash) :
        ((hashes.drop direct).map leaf)[i]? = some (leaf hash) := by
      rw [List.getElem?_map, List.getElem?_drop, h]
      rfl
    have hjoined := LeafTree.getElem?_pairUp (i := k - direct)
      (hleaf _ _ (by rw [← hsource]; exact hleft))
      (hleaf _ _ (by rw [← Nat.add_assoc, ← hsource]; exact hright))
    refine ⟨(level.set k (hashPair cnFastHash (hashes.get ⟨source, by omega⟩)
      (hashes.get ⟨source + 1, by omega⟩)), source + 2), ?_, ?_, ?_, ?_⟩
    · unfold pairStep
      dsimp only
      rw [hleft, hright]
      rfl
    · dsimp only
      omega
    · dsimp only
      rw [List.length_set, hlen]
    · intro i hi
      dsimp only
      by_cases hik : i = k
      · rw [hik, List.getElem?_set_self (by omega)]
        have hlt : ((hashes.take direct).map leaf).length = direct := by
          rw [List.length_map, List.length_take]
          omega
        unfold entry firstRow
        rw [List.getElem?_append_right (by omega), hlt, hjoined]
        rfl
      · rw [List.getElem?_set_ne (Ne.symm hik), hold i (by omega)]
  obtain ⟨⟨level, source⟩, hloop, hsource, hlen, hentry⟩ := loop
  have hsource : source = hashes.length := by
    dsimp only at hsource
    omega
  refine ⟨level, ?_, hlen, ?_⟩
  · rw [hloop, hsource]
  · intro i hi
    rw [length_firstRow hcount hdirect] at hi
    exact hentry i (by omega)

end

/-! ## The root -/

/-- Of two hashes or more, the tree hash is the root of the tree over them whose leaves have these
depths: with `2 ^ e` the largest power of two below their number, the first ones are at depth `e`
and the others one level below. -/
def IsRoot (hashes : List Hash) (root : Hash) : Prop :=
  ∃ e, ∃ t : LeafTree Hash, 2 ^ e < hashes.length ∧ hashes.length ≤ 2 ^ (e + 1) ∧ t.leaves = hashes ∧
    t.depths = List.replicate (2 * 2 ^ e - hashes.length) e
      ++ List.replicate (2 * (hashes.length - 2 ^ e)) (e + 1) ∧
    root = t.fold (hashPair cnFastHash)

/-- The tree, and so its root, is unique. -/
lemma IsRoot.unique {hashes : List Hash} {root root' : Hash} (h : IsRoot cnFastHash hashes root)
    (h' : IsRoot cnFastHash hashes root') : root = root' := by
  obtain ⟨e, t, hlt, hle, hleaves, hdepths, rfl⟩ := h
  obtain ⟨e', t', hlt', hle', hleaves', hdepths', rfl⟩ := h'
  have hee : e < e' + 1 := (Nat.pow_lt_pow_iff_right (by norm_num)).mp (hlt.trans_le hle')
  have hee' : e' < e + 1 := (Nat.pow_lt_pow_iff_right (by norm_num)).mp (hlt'.trans_le hle)
  obtain rfl : e = e' := by omega
  rw [LeafTree.eq_of_leaves_of_depths (hleaves.trans hleaves'.symm) (hdepths.trans hdepths'.symm)]

lemma treeHashMany_isRoot {hashes : List Hash} (h : 3 ≤ hashes.length) :
    ∃ root, treeHashMany cnFastHash hashes = some root ∧ IsRoot cnFastHash hashes root := by
  have hbelow : 2 ^ 0 < hashes.length := by omega
  obtain ⟨e, -, hlt, hle, hwhile⟩ :=
    whileLoop_levelLen hbelow (Nat.le_add_left hashes.length (2 ^ 0))
  rw [pow_succ] at hle
  -- three hashes or more, so the power below their number is at least 2
  obtain ⟨f, rfl⟩ : ∃ f, e = f + 1 := by
    cases e with
    | zero => omega
    | succ f => exact ⟨f, rfl⟩
  set direct := 2 * 2 ^ (f + 1) - hashes.length with hdirect
  have hdirectLe : direct ≤ 2 ^ (f + 1) := by omega
  have hcount : hashes.length = direct + 2 * (2 ^ (f + 1) - direct) := by omega
  obtain ⟨level, hpairs, hlen, hrow⟩ := foldlM_pairStep cnFastHash hcount hdirectLe
  have hlength := length_firstRow hcount hdirectLe
  have hf : f ≤ hashes.length := by
    have hfpow : f + 1 < 2 ^ (f + 1) := Nat.lt_two_pow_self
    omega
  obtain ⟨final, left, right, hpasses, hfinal, hleaves⟩ := whileLoop_foldLevel cnFastHash hlength
    (by rw [hlength, hlen]) hrow hf
  -- the three loops in sequence, and the last pair
  have hroot : treeHashMany cnFastHash hashes
      = some ((node left right).fold (hashPair cnFastHash)) := by
    have hleft : final[0]? = some (left.fold (hashPair cnFastHash)) :=
      hfinal 0 (by norm_num)
    have hright : final[1]? = some (right.fold (hashPair cnFastHash)) :=
      hfinal 1 (by norm_num)
    rw [hlength] at hpasses
    unfold treeHashMany
    dsimp only
    rw [pow_zero] at hwhile
    rw [hwhile, Option.bind_eq_bind, Option.bind_some, checkedSub_eq (by omega), Option.bind_some,
      ← hdirect, if_pos ⟨hdirectLe, by omega⟩, hpairs, Option.bind_eq_bind, Option.bind_some]
    dsimp only
    rw [if_pos rfl, hpasses, Option.bind_eq_bind, Option.bind_some]
    dsimp only
    rw [hleft, hright]
    rfl
  rw [flatMap_leavesAt_firstRow hcount] at hleaves
  refine ⟨_, hroot, f + 1, node left right, hlt, by rw [pow_succ]; exact hle, ?_, ?_, rfl⟩
  · unfold LeafTree.leaves
    rw [hleaves, List.map_append, List.map_map, List.map_map]
    exact (congrArg₂ (· ++ ·) (List.map_id _) (List.map_id _)).trans (List.take_append_drop _ _)
  · unfold LeafTree.depths
    rw [hleaves, List.map_append, List.map_map, List.map_map]
    have hconst (l : List Hash) (d : ℕ) :
        l.map (Prod.snd ∘ fun hash => (hash, d)) = List.replicate l.length d := List.map_const'
    rw [hconst, hconst, List.length_take, List.length_drop]
    congr 2 <;> omega

/-- The tree hash is computed without a panic: one hash is its own root, more are the leaves of
the tree. -/
theorem treeHash_isRoot :
    (∀ hash, treeHash cnFastHash [hash] = some hash) ∧
      ∀ first second rest, ∃ root, treeHash cnFastHash (first :: second :: rest) = some root ∧
        IsRoot cnFastHash (first :: second :: rest) root := by
  refine ⟨fun hash => rfl, ?_⟩
  intro first second rest
  cases rest with
  | nil =>
    refine ⟨_, rfl, 0, node (leaf first) (leaf second), ?_, ?_, rfl, rfl, rfl⟩
    · simp
    · simp
  | cons third rest => exact treeHashMany_isRoot cnFastHash (by simp)

end

end RandomXSp1.Audit
