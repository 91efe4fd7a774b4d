import Mathlib

/-!
# Prefix codes and hash chains

A prefix code can be read off the front of whatever follows it. Codes of a fixed length are of this
kind as soon as they are injective, and one after the other they stay so: a record is determined by
its fields' codes written without separators.

Items that have an ID and name the ID of their parent, as the blocks of a chain do. Where IDs are
hashes, the last ID determines the chain before it, up to a collision.
-/

namespace RandomXSp1

/-! ## Prefix codes -/

section
variable {α γ β : Type}

/-- A word of the code, followed by anything, determines what it stands for and what follows. -/
def PrefixCode (code : α → List β) : Prop :=
  ∀ ⦃a a' : α⦄ ⦃rest rest' : List β⦄, code a ++ rest = code a' ++ rest' → a = a' ∧ rest = rest'

namespace PrefixCode

lemma injective {code : α → List β} (h : PrefixCode code) : Function.Injective code := by
  intro a a' heq
  have hempty : code a ++ [] = code a' ++ [] := congrArg (· ++ []) heq
  exact (h hempty).1

/-- A field, and then another one. -/
lemma append {code : α → List β} {code' : γ → List β} (h : PrefixCode code)
    (h' : PrefixCode code') : PrefixCode fun pair : α × γ => code pair.1 ++ code' pair.2 := by
  intro pair pair' rest rest' heq
  rw [List.append_assoc, List.append_assoc] at heq
  obtain ⟨hfst, htail⟩ := h heq
  obtain ⟨hsnd, hrest⟩ := h' htail
  exact ⟨Prod.ext hfst hsnd, hrest⟩

lemma of_length {code : α → List β} (hinj : Function.Injective code) (n : ℕ)
    (h : ∀ a, (code a).length = n) : PrefixCode code := by
  intro a a' rest rest' heq
  obtain ⟨hcode, hrest⟩ := List.append_inj heq ((h a).trans (h a').symm)
  exact ⟨hinj hcode, hrest⟩

lemma comp {code : α → List β} (h : PrefixCode code) {f : γ → α} (hf : Function.Injective f) :
    PrefixCode fun c => code (f c) := by
  intro c c' rest rest' heq
  obtain ⟨ha, hrest⟩ := h heq
  exact ⟨hf ha, hrest⟩

end PrefixCode

end

/-! ## Chains -/

section
variable {α ι : Type*} (id parent : α → ι)

/-- Each item, from the second on, names the one before it. -/
def Linked (l : List α) : Prop := l.IsChain fun previous next => parent next = id previous

/-- Different items of the two lists with the same ID. -/
def Collides (l l' : List α) : Prop := ∃ a ∈ l, ∃ a' ∈ l', a ≠ a' ∧ id a = id a'

variable {id parent}

lemma Collides.cons {a a' : α} {l l' : List α} (h : Collides id l l') :
    Collides id (a :: l) (a' :: l') := by
  obtain ⟨b, hb, b', hb', hne, heq⟩ := h
  exact ⟨b, List.mem_cons_of_mem a hb, b', List.mem_cons_of_mem a' hb', hne, heq⟩

lemma Collides.of_reverse {l l' : List α} (h : Collides id l.reverse l'.reverse) :
    Collides id l l' := by
  obtain ⟨b, hb, b', hb', hne, heq⟩ := h
  exact ⟨b, List.mem_reverse.mp hb, b', List.mem_reverse.mp hb', hne, heq⟩

/-- Newest first: the shorter of two chains with the same newest ID is the beginning of the
longer one. -/
lemma isPrefix_or_collides {l l' : List α} (hlength : l.length ≤ l'.length)
    (h : l.IsChain fun next previous => parent next = id previous)
    (h' : l'.IsChain fun next previous => parent next = id previous)
    (hhead : ∀ a ∈ l.head?, ∀ a' ∈ l'.head?, id a = id a') : l <+: l' ∨ Collides id l l' := by
  induction l generalizing l' with
  | nil => exact Or.inl List.nil_prefix
  | cons a l ih =>
    cases l' with
    | nil => cases hlength
    | cons a' l' =>
      have hid : id a = id a' := hhead a rfl a' rfl
      by_cases heq : a = a'
      -- the same item names the same parent, so the rests have the same newest ID
      · subst heq
        rw [List.isChain_cons] at h h'
        have hhead' : ∀ b ∈ l.head?, ∀ b' ∈ l'.head?, id b = id b' :=
          fun b hb b' hb' => (h.1 b hb).symm.trans (h'.1 b' hb')
        cases ih (Nat.le_of_succ_le_succ hlength) h.2 h'.2 hhead' with
        | inl hinitial => exact Or.inl (List.cons_prefix_cons.mpr ⟨rfl, hinitial⟩)
        | inr hcollides => exact Or.inr hcollides.cons
      -- different items with one ID are a collision, and the rest does not matter
      · exact Or.inr ⟨a, List.mem_cons_self, a', List.mem_cons_self, heq, hid⟩

/-- The shorter of two chains with the same last ID is the end of the longer one, unless the chains
contain a collision. -/
theorem Linked.isSuffix_or_collides {l l' : List α} (hlength : l.length ≤ l'.length)
    (h : Linked id parent l) (h' : Linked id parent l')
    (hlast : ∀ a ∈ l.getLast?, ∀ a' ∈ l'.getLast?, id a = id a') :
    l <:+ l' ∨ Collides id l l' := by
  -- the newest item is at the end, and the induction goes to the oldest
  rw [← List.reverse_prefix]
  refine Or.imp_right Collides.of_reverse (isPrefix_or_collides ?_ (List.isChain_reverse.mpr h)
    (List.isChain_reverse.mpr h') ?_)
  · rwa [List.length_reverse, List.length_reverse]
  · rwa [List.head?_reverse, List.head?_reverse]

end

end RandomXSp1
