import RandomXSp1.Draw

/-!
# Pairs of programs that draw

`Alike R m n`: two programs over the same generator draw the same, fail alike, and return values
related by `R`. It composes along the programs by `Alike.bind`.
-/

namespace RandomXSp1

variable {G α β γ δ : Type}

/-- Results of equal draws whose values are related. -/
inductive AlikeResult (R : α → β → Prop) :
    Except Fault (α × G) → Except Fault (β × G) → Prop
  | ok {a : α} {b : β} (h : R a b) (g : G) : AlikeResult R (.ok (a, g)) (.ok (b, g))
  | error (fault : Fault) : AlikeResult R (.error fault) (.error fault)

def Alike (R : α → β → Prop) (m : Draw G α) (n : Draw G β) : Prop :=
  ∀ g, AlikeResult R (m g) (n g)

section
variable {R : α → β → Prop} {S : γ → δ → Prop} {m : Draw G α} {n : Draw G β}

lemma Alike.pure {a : α} {b : β} (h : R a b) : Alike R (pure a : Draw G α) (pure b) :=
  fun g => .ok h g

lemma Alike.throw (fault : Fault) : Alike R (throw fault : Draw G α) (throw fault) :=
  fun _ => .error fault

lemma Alike.bind {f : α → Draw G γ} {f' : β → Draw G δ} (hm : Alike R m n)
    (hf : ∀ a b, R a b → Alike S (f a) (f' b)) : Alike S (m >>= f) (n >>= f') := by
  intro g
  have h := hm g
  show AlikeResult S ((m g).bind fun p => f p.1 p.2) ((n g).bind fun p => f' p.1 p.2)
  generalize m g = result, n g = result' at h ⊢
  cases h with
  | ok hab g' => exact hf _ _ hab g'
  | error fault => exact .error fault

lemma Alike.mono {R' : α → β → Prop} (hm : Alike R m n) (h : ∀ a b, R a b → R' a b) :
    Alike R' m n := by
  intro g
  have hg := hm g
  generalize m g = result, n g = result' at hg ⊢
  cases hg with
  | ok hab g' => exact .ok (h _ _ hab) g'
  | error fault => exact .error fault

lemma Alike.ite {c : Prop} [Decidable c] {m' : Draw G α} {n' : Draw G β}
    (hm : c → Alike R m n) (hn : ¬c → Alike R m' n') :
    Alike R (if c then m else m') (if c then n else n') := by
  split
  · exact hm ‹_›
  · exact hn ‹_›

end

/-- A program draws like itself. -/
lemma Alike.refl (m : Draw G α) : Alike Eq m m := by
  intro g
  cases m g with
  | ok result => exact .ok rfl result.2
  | error fault => exact .error fault

/-- A program draws like itself, and its value has the property it ensures. -/
lemma Alike.of_ensures {R : α → α → Prop} {m : Draw G α} (h : Ensures m fun a => R a a) :
    Alike R m m := by
  intro g
  cases hm : m g with
  | ok result => exact .ok (h g result.1 result.2 hm) result.2
  | error fault => exact .error fault

lemma Yields.ensures {P : α → Prop} {m : Draw G α} (hm : Yields m P) : Ensures m P := by
  intro g a g' ha
  have h := hm g
  rw [ha] at h
  exact h

/-- What the first program ensures, holds next to the relation. -/
lemma Alike.and_ensures {R : α → β → Prop} {P : α → Prop} {m : Draw G α} {n : Draw G β}
    (hm : Alike R m n) (h : Ensures m P) : Alike (fun a b => R a b ∧ P a) m n := by
  intro g
  have hg := hm g
  have hP := h g
  generalize m g = result, n g = result' at hg hP ⊢
  cases hg with
  | ok hab g' => exact .ok ⟨hab, hP _ g' rfl⟩ g'
  | error fault => exact .error fault

/-- What the first program returns has a counterpart. -/
lemma Alike.ensures {R : α → β → Prop} {m : Draw G α} {n : Draw G β} (hm : Alike R m n) :
    Ensures m fun a => ∃ b, R a b := by
  intro g a g' ha
  have hg := hm g
  rw [ha] at hg
  generalize n g = result at hg
  cases hg with
  | ok hab => exact ⟨_, hab⟩

/-- A common first step. -/
lemma Alike.bind_same {S : γ → δ → Prop} (m : Draw G α) {f : α → Draw G γ} {f' : α → Draw G δ}
    (hf : ∀ a, Alike S (f a) (f' a)) : Alike S (m >>= f) (m >>= f') :=
  (Alike.refl m).bind fun a _ hab => hab ▸ hf a

/-- A loop whose body draws alike, turn by turn. -/
lemma Alike.foldlM {ι : Type} {R : α → β → Prop} {f : α → ι → Draw G α} {f' : β → ι → Draw G β}
    (h : ∀ a b i, R a b → Alike R (f a i) (f' b i)) (l : List ι) {a : α} {b : β} (hab : R a b) :
    Alike R (l.foldlM f a) (l.foldlM f' b) := by
  induction l generalizing a b with
  | nil => exact Alike.pure hab
  | cons i l ih =>
    rw [List.foldlM_cons, List.foldlM_cons]
    exact (h a b i hab).bind fun _ _ hnext => ih hnext

end RandomXSp1
