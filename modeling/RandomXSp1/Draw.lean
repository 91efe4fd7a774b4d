import Mathlib

/-!
# Programs that draw from a generator

A program over a generator with states `G` either returns, panics, or runs out of the rounds
it was given for a rejection loop. `Yields m P` says that `m`, whatever the generator
returns, never panics and returns a value with `P` if it returns; it composes along the
program by `Yields.bind`.
-/

namespace RandomXSp1

/-- Why a program has no result. -/
inductive Fault where
  /-- a panic of the code -/
  | panic
  /-- every round granted to a rejection loop was rejected -/
  | rejecting
  deriving DecidableEq, Repr

abbrev Draw (G : Type) := StateT G (Except Fault)

variable {G α β : Type}

/-- A step that panics without a value. -/
def Draw.expect : Option α → Draw G α
  | some a => pure a
  | none => throw .panic

/-- Draws until a value is accepted, for at most the given number of rounds. -/
def Draw.rejectWhile (reject : α → Bool) (draw : Draw G α) : ℕ → Draw G α
  | 0 => throw .rejecting
  | rounds + 1 => do
    let a ← draw
    if reject a then rejectWhile reject draw rounds else pure a

/-- A program that returned went through its first step. -/
lemma Draw.exists_of_bind {m : Draw G α} {f : α → Draw G β} {g h : G} {b : β}
    (hb : (m >>= f) g = .ok (b, h)) : ∃ a g', m g = .ok (a, g') ∧ f a g' = .ok (b, h) := by
  have hb : ((m g).bind fun p => f p.1 p.2) = .ok (b, h) := hb
  cases hm : m g with
  | error fault =>
    rw [hm] at hb
    cases hb
  | ok p =>
    rw [hm] at hb
    exact ⟨p.1, p.2, rfl, hb⟩

/-- The generator does not change where a value is expected. -/
lemma Draw.eq_of_expect {o : Option α} {a : α} {g h : G} (ha : expect o g = .ok (a, h)) :
    o = some a ∧ h = g := by
  cases o with
  | none => cases ha
  | some a =>
    cases ha
    exact ⟨rfl, rfl⟩

/-- The program does not panic, and what it returns satisfies `P`. -/
def Yields (m : Draw G α) (P : α → Prop) : Prop :=
  ∀ g, match m g with
    | .ok (a, _) => P a
    | .error fault => fault = .rejecting

section
variable {m : Draw G α} {f : α → Draw G β} {P Q : α → Prop} {R : β → Prop}

lemma Yields.pure {a : α} (h : P a) : Yields (pure a : Draw G α) P := by
  intro g
  exact h

lemma Yields.bind (hm : Yields m P) (hf : ∀ a, P a → Yields (f a) R) : Yields (m >>= f) R := by
  intro g
  have h := hm g
  show match (m g).bind fun p => f p.1 p.2 with
    | .ok (b, _) => R b
    | .error fault => fault = .rejecting
  cases hg : m g with
  | error fault =>
    rw [hg] at h
    exact h
  | ok p =>
    rw [hg] at h
    exact hf p.1 h p.2

lemma Yields.mono (hm : Yields m P) (h : ∀ a, P a → Q a) : Yields m Q := by
  intro g
  have hg := hm g
  cases hm' : m g with
  | error fault =>
    rw [hm'] at hg
    exact hg
  | ok p =>
    rw [hm'] at hg
    exact h p.1 hg

/-- A single draw of the generator returns. -/
lemma Yields.draw (step : G → α × G) : Yields (fun g => .ok (step g) : Draw G α) fun _ => True := by
  intro g
  trivial

lemma Yields.expect {o : Option α} {a : α} (ho : o = some a) (h : P a) :
    Yields (Draw.expect o : Draw G α) P := by
  rw [ho]
  exact Yields.pure h

lemma Yields.ite {c : Prop} [Decidable c] {n : Draw G α} (hm : c → Yields m P)
    (hn : ¬c → Yields n P) : Yields (if c then m else n) P := by
  split
  · exact hm ‹_›
  · exact hn ‹_›

/-- What a rejection loop returns was accepted. -/
lemma Yields.rejectWhile {reject : α → Bool} (hm : Yields m P) (rounds : ℕ) :
    Yields (Draw.rejectWhile reject m rounds) fun a => P a ∧ reject a = false := by
  induction rounds with
  | zero =>
    intro g
    rfl
  | succ rounds ih =>
    rw [Draw.rejectWhile]
    apply hm.bind
    intro a ha
    apply Yields.ite
    · intro _
      exact ih
    · intro hreject
      exact Yields.pure ⟨ha, by simpa using hreject⟩

/-- What every turn of a loop preserves, the loop yields. -/
lemma Yields.foldlM {ι : Type} {step : α → ι → Draw G α}
    (h : ∀ a i, P a → Yields (step a i) P) (l : List ι) {a : α} (ha : P a) :
    Yields (l.foldlM step a) P := by
  induction l generalizing a with
  | nil => exact Yields.pure ha
  | cons i l ih =>
    rw [List.foldlM_cons]
    exact (h a i ha).bind fun _ hnext => ih hnext

/-- What the program returns, if it returns, satisfies `P`. -/
def Ensures (m : Draw G α) (P : α → Prop) : Prop := ∀ g a g', m g = .ok (a, g') → P a

lemma Ensures.pure {a : α} (h : P a) : Ensures (pure a : Draw G α) P := by
  intro g b g' hb
  cases hb
  exact h

lemma Ensures.bind (hm : Ensures m P) (hf : ∀ a, P a → Ensures (f a) R) : Ensures (m >>= f) R := by
  intro g b g' hb
  obtain ⟨a, h, ha, hb⟩ := Draw.exists_of_bind hb
  exact hf a (hm g a h ha) h b g' hb

lemma Ensures.trivial : Ensures m fun _ => True := fun _ _ _ _ => True.intro

lemma Ensures.mono (hm : Ensures m P) (h : ∀ a, P a → Q a) : Ensures m Q :=
  fun g a g' ha => h a (hm g a g' ha)

lemma Ensures.expect {o : Option α} (h : ∀ a, o = some a → P a) :
    Ensures (Draw.expect o : Draw G α) P := by
  cases o with
  | none =>
    intro g a g' ha
    cases ha
  | some a => exact Ensures.pure (h a rfl)

lemma Ensures.throw {fault : Fault} : Ensures (throw fault : Draw G α) P := by
  intro g a g' ha
  cases ha

lemma Ensures.ite {c : Prop} [Decidable c] {n : Draw G α} (hm : c → Ensures m P)
    (hn : ¬c → Ensures n P) : Ensures (if c then m else n) P := by
  split
  · exact hm ‹_›
  · exact hn ‹_›

/-- What every turn of a loop preserves, the loop ensures. -/
lemma Ensures.foldlM {ι : Type} {step : α → ι → Draw G α}
    (h : ∀ a i, P a → Ensures (step a i) P) (l : List ι) {a : α} (ha : P a) :
    Ensures (l.foldlM step a) P := by
  induction l generalizing a with
  | nil => exact Ensures.pure ha
  | cons i l ih =>
    rw [List.foldlM_cons]
    exact (h a i ha).bind fun _ hnext => ih hnext

/-- A run that did not exhaust a rejection loop returned. -/
lemma Yields.returns (hm : Yields m P) {g : G} (h : m g ≠ .error .rejecting) :
    ∃ a g', m g = .ok (a, g') ∧ P a := by
  have hg := hm g
  cases hm' : m g with
  | error fault =>
    rw [hm'] at hg h
    exact absurd (congrArg Except.error hg) h
  | ok p =>
    rw [hm'] at hg
    exact ⟨p.1, p.2, rfl, hg⟩

end

end RandomXSp1
