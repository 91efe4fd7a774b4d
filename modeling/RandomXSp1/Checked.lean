import Mathlib

/-!
# Checked arithmetic and outcomes

Operations on unsigned machine integers in exact arithmetic, `none` where the result leaves the
type; and the outcomes of a function that may return a value, return an error, or panic.
-/

namespace RandomXSp1

/-! ## Checked arithmetic -/

/-- The checked operations of an unsigned integer of the width. -/
def checkedAdd (width a b : ℕ) : Option ℕ := if a + b < 2 ^ width then some (a + b) else none
def checkedSub (a b : ℕ) : Option ℕ := if b ≤ a then some (a - b) else none
def checkedMul (width a b : ℕ) : Option ℕ := if a * b < 2 ^ width then some (a * b) else none

section
variable {width a b : ℕ}

/-- Within the width a checked operation is the one on numbers. -/
lemma checkedAdd_eq (h : a + b < 2 ^ width) : checkedAdd width a b = some (a + b) := if_pos h

lemma checkedSub_eq (h : b ≤ a) : checkedSub a b = some (a - b) := if_pos h

lemma checkedMul_eq (h : a * b < 2 ^ width) : checkedMul width a b = some (a * b) := if_pos h

end

/-- An assertion that holds is passed. -/
lemma guard_bind {α : Type} {p : Prop} [Decidable p] (h : p) (f : Unit → Option α) :
    guard p >>= f = f () := by
  simp [guard, h]

lemma guard_eq_some {p : Prop} [Decidable p] {u : Unit} : guard p = some u ↔ p := by
  unfold guard
  split <;> simp_all [failure]

/-! ## Outcomes -/

/-- An outcome with an error text inside, `none` for a panic. -/
abbrev Outcome := ExceptT String Option

/-- What panics for lack of a value. -/
def Outcome.expect {α : Type} (value : Option α) : Outcome α :=
  ExceptT.lift value

namespace Outcome

variable {α β : Type}

/-- `context`, on a failure without a text. -/
def context (value : Option α) (error : String) : Outcome α :=
  match value with
  | some a => pure a
  | none => throw error

/-- `bail!` under a condition. -/
def bailIf (p : Prop) [Decidable p] (error : String) : Outcome Unit :=
  if p then throw error else pure ()

/-- `Result::expect`: an error panics as well. -/
def unwrap (x : Outcome α) : Option α := do
  match ← x.run with
  | .ok a => some a
  | .error _ => none

/-- The three ways in which a fallible function of the source ends: with a value, an error or a
panic. -/
def Returns (x : Outcome α) (a : α) : Prop := x.run = some (.ok a)

def Fails (x : Outcome α) : Prop := ∃ e, x.run = some (.error e)

def Panics (x : Outcome α) : Prop := x.run = none

/-- After a value the computation goes on with it. -/
lemma Returns.bind {x : Outcome α} {f : α → Outcome β} {a : α} (h : x.Returns a) :
    x >>= f = f a := by
  have hx : x = pure a := h
  rw [hx, pure_bind]

/-- What a sequence returns, its second part returns from a value of the first. -/
lemma Returns.of_bind {x : Outcome α} {f : α → Outcome β} {b : β} (h : (x >>= f).Returns b) :
    ∃ a, x.Returns a ∧ (f a).Returns b := by
  match hx : x.run with
  | none =>
    have hpanics : x = ExceptT.mk none := hx
    rw [hpanics] at h
    cases h
  | some (.error e) =>
    have hfails : x = throw e := hx
    rw [hfails] at h
    cases h
  | some (.ok a) =>
    have hreturns : x.Returns a := hx
    rw [hreturns.bind] at h
    exact ⟨a, hreturns, h⟩

/-- A sequence returns if both of its parts do. -/
lemma bind_returns {x : Outcome α} {f : α → Outcome β} {b : β} :
    (x >>= f).Returns b ↔ ∃ a, x.Returns a ∧ (f a).Returns b := by
  constructor
  · exact Returns.of_bind
  · rintro ⟨a, ha, hb⟩
    rwa [ha.bind]

/-- A missing value is an error. -/
lemma context_returns {value : Option α} {error : String} {a : α} :
    (context value error).Returns a ↔ value = some a := by
  unfold context
  cases value with
  | none => exact ⟨nofun, nofun⟩
  | some b => exact ⟨fun h => by cases h; rfl, fun h => by cases h; rfl⟩

lemma bailIf_returns {p : Prop} [Decidable p] {error : String} {u : Unit} :
    (bailIf p error).Returns u ↔ ¬p := by
  unfold bailIf
  by_cases h : p
  · rw [if_pos h]
    exact ⟨nofun, fun hn => absurd h hn⟩
  · rw [if_neg h]
    exact ⟨fun _ => h, fun _ => rfl⟩

/-- Here it is a panic. -/
lemma expect_returns {value : Option α} {a : α} : (expect value).Returns a ↔ value = some a := by
  constructor
  · intro h
    cases value with
    | none => cases h
    | some b =>
      cases h
      rfl
  · intro h
    rw [h]
    rfl

/-- Unwrapping turns errors into panics. -/
lemma unwrap_eq_some {x : Outcome α} {a : α} : x.unwrap = some a ↔ x.Returns a := by
  unfold unwrap Returns
  match x.run with
  | none => simp
  | some (.error e) => simp
  | some (.ok b) => simp

/-- Errors and panics end a sequence. -/
lemma Fails.bind {x : Outcome α} {f : α → Outcome β} (h : x.Fails) : (x >>= f).Fails := by
  obtain ⟨e, he⟩ := h
  have hx : x = throw e := he
  refine ⟨e, ?_⟩
  rw [hx]
  rfl

lemma Panics.bind {x : Outcome α} {f : α → Outcome β} (h : x.Panics) : (x >>= f).Panics := by
  have hx : x = ExceptT.mk none := h
  rw [hx]
  rfl

/-- The outcome is one of the three, and unique. -/
lemma Returns.eq {x : Outcome α} {a b : α} (h : x.Returns a) (h' : x.Returns b) : a = b := by
  cases h.symm.trans h'
  rfl

lemma Fails.not_returns {x : Outcome α} (h : x.Fails) (a : α) : ¬x.Returns a := by
  obtain ⟨e, he⟩ := h
  intro ha
  cases he.symm.trans ha

lemma Fails.not_panics {x : Outcome α} (h : x.Fails) : ¬x.Panics := by
  obtain ⟨e, he⟩ := h
  intro hx
  cases he.symm.trans hx

lemma Returns.not_panics {x : Outcome α} {a : α} (h : x.Returns a) : ¬x.Panics := by
  intro hx
  cases h.symm.trans hx

end Outcome

end RandomXSp1
