import Mathlib

/-!
# Binary trees with values at the leaves

A tree is folded by a binary operation. Its leaves with their depths, from left to right,
determine it. A row of trees is joined in pairs to a row of half the length, which puts every leaf
one level deeper.
-/

namespace RandomXSp1

inductive LeafTree (α : Type*) where
  | leaf (a : α)
  | node (left right : LeafTree α)

namespace LeafTree

variable {α β : Type*}

/-- The value at the root, with `f` at the inner nodes. -/
def fold (f : α → α → α) : LeafTree α → α
  | leaf a => a
  | node left right => f (left.fold f) (right.fold f)

/-- The leaves from left to right with their depths, for a root at the given depth. -/
def leavesAt (depth : ℕ) : LeafTree α → List (α × ℕ)
  | leaf a => [(a, depth)]
  | node left right => left.leavesAt (depth + 1) ++ right.leavesAt (depth + 1)

def leaves (t : LeafTree α) : List α := (t.leavesAt 0).map Prod.fst

def depths (t : LeafTree α) : List ℕ := (t.leavesAt 0).map Prod.snd

/-- The first leaf is at or below the root. -/
lemma exists_leavesAt_eq_cons (t : LeafTree α) (depth : ℕ) :
    ∃ a d l, t.leavesAt depth = (a, d) :: l ∧ depth ≤ d := by
  induction t generalizing depth with
  | leaf a => exact ⟨a, depth, [], rfl, le_rfl⟩
  | node left right ihLeft ihRight =>
    obtain ⟨a, d, l, hleft, hle⟩ := ihLeft (depth + 1)
    refine ⟨a, d, l ++ right.leavesAt (depth + 1), ?_, by omega⟩
    show left.leavesAt (depth + 1) ++ right.leavesAt (depth + 1) = _
    rw [hleft, List.cons_append]

/-- Trees in a row are read off their leaves one by one. -/
lemma eq_of_leavesAt_append {t t' : LeafTree α} {depth : ℕ} {l l' : List (α × ℕ)}
    (h : t.leavesAt depth ++ l = t'.leavesAt depth ++ l') : t = t' ∧ l = l' := by
  -- a leaf here is not the first leaf of a node here
  have hleaf (a : α) (left right : LeafTree α) (depth : ℕ) (m m' : List (α × ℕ)) :
      (leaf a).leavesAt depth ++ m ≠ (node left right).leavesAt depth ++ m' := by
    intro heq
    obtain ⟨b, d, k, hfirst, hle⟩ := left.exists_leavesAt_eq_cons (depth + 1)
    unfold leavesAt at heq
    rw [hfirst] at heq
    have hdepth := congrArg Prod.snd (List.cons.inj heq).1
    dsimp only at hdepth
    omega
  induction t generalizing t' depth l l' with
  | leaf a =>
    cases t' with
    | leaf b =>
      obtain ⟨hhead, hrest⟩ := List.cons.inj h
      rw [(Prod.mk.inj hhead).1]
      exact ⟨rfl, hrest⟩
    | node left' right' => exact absurd h (hleaf a left' right' depth l l')
  | node left right ihLeft ihRight =>
    cases t' with
    | leaf b => exact absurd h.symm (hleaf b left right depth l' l)
    | node left' right' =>
      unfold leavesAt at h
      rw [List.append_assoc, List.append_assoc] at h
      obtain ⟨rfl, hright⟩ := ihLeft h
      obtain ⟨rfl, hrest⟩ := ihRight hright
      exact ⟨rfl, hrest⟩

/-- The leaves and their depths determine the tree. -/
lemma eq_of_leaves_of_depths {t t' : LeafTree α} (hleaves : t.leaves = t'.leaves)
    (hdepths : t.depths = t'.depths) : t = t' := by
  have hzip (l : List (α × ℕ)) : (l.map Prod.fst).zip (l.map Prod.snd) = l := by
    rw [List.zip_map']
    exact List.map_id l
  have h : t.leavesAt 0 = t'.leavesAt 0 := by
    rw [← hzip (t.leavesAt 0), ← hzip (t'.leavesAt 0)]
    exact congrArg₂ List.zip hleaves hdepths
  have happend : t.leavesAt 0 ++ [] = t'.leavesAt 0 ++ [] := by rw [h]
  exact (eq_of_leavesAt_append happend).1

/-- The trees of a row, joined in pairs. -/
def pairUp : List (LeafTree α) → List (LeafTree α)
  | left :: right :: row => node left right :: pairUp row
  | _ => []

lemma length_pairUp (row : List (LeafTree α)) : (pairUp row).length = row.length / 2 := by
  match row with
  | [] => simp [pairUp]
  | [_] => simp [pairUp]
  | left :: right :: row =>
    unfold pairUp
    rw [List.length_cons, length_pairUp row, List.length_cons, List.length_cons]
    omega

lemma getElem?_pairUp {row : List (LeafTree α)} {left right : LeafTree α} {i : ℕ}
    (hleft : row[2 * i]? = some left) (hright : row[2 * i + 1]? = some right) :
    (pairUp row)[i]? = some (node left right) := by
  induction i generalizing row with
  | zero =>
    match row, hleft, hright with
    | [], hleft, _ => cases hleft
    | [_], _, hright => cases hright
    | _ :: _ :: _, hleft, hright =>
      cases hleft
      cases hright
      rfl
  | succ i ih =>
    match row, hleft, hright with
    | [], hleft, _ => cases hleft
    | [_], _, hright => cases hright
    | _ :: _ :: row, hleft, hright => exact ih hleft hright

/-- The leaves stay, one level deeper. -/
lemma flatMap_leavesAt_pairUp {row : List (LeafTree α)} (heven : row.length % 2 = 0) (depth : ℕ) :
    (pairUp row).flatMap (leavesAt depth) = row.flatMap (leavesAt (depth + 1)) := by
  match row with
  | [] => rfl
  | [_] => cases heven
  | left :: right :: row =>
    have hrow : row.length % 2 = 0 := by
      rw [List.length_cons, List.length_cons] at heven
      omega
    unfold pairUp
    rw [List.flatMap_cons, flatMap_leavesAt_pairUp hrow depth, List.flatMap_cons, List.flatMap_cons,
      ← List.append_assoc]
    rfl

lemma flatMap_leavesAt_leaf (values : List α) (depth : ℕ) :
    (values.map leaf).flatMap (leavesAt depth) = values.map fun a => (a, depth) := by
  induction values with
  | nil => rfl
  | cons a values ih => rw [List.map_cons, List.flatMap_cons, ih]; rfl

end LeafTree

end RandomXSp1
