import RandomXSp1.Draw

/-!
# Runs of a loop that draws

A loop whose body draws from a generator and reports an event: `Runs` holds the states and the
events of some turns of it. A measure that every turn lowers bounds the turns of every run, and
makes a program that unfolds into turns return the state of a complete run.
-/

namespace RandomXSp1

variable {G σ ε : Type} {α : Type}

section
variable (running : σ → Prop) (turn : σ → Draw G (ε × σ))

/-- Some turns of the loop, from a state and a state of the generator, and their events. -/
inductive Runs : σ → G → List ε → σ → G → Prop
  | refl (s : σ) (g : G) : Runs s g [] s g
  | turn {s s' t : σ} {g g' h : G} {e : ε} {l : List ε} (hrun : running s)
      (hturn : turn s g = .ok ((e, s'), g')) (rest : Runs s' g' l t h) : Runs s g (e :: l) t h

/-- The first turns from a state, none if the loop ends before or a turn has no result. -/
def runTurns [DecidablePred running] : ℕ → σ → G → Option (List ε × σ × G)
  | 0, s, g => some ([], s, g)
  | n + 1, s, g =>
    if running s then
      match turn s g with
      | .ok ((e, s'), g') => (runTurns n s' g').map fun r => (e :: r.1, r.2)
      | .error _ => none
    else none

end

variable {running : σ → Prop} {turn : σ → Draw G (ε × σ)} {Inv : σ → Prop}
  {s t : σ} {g h : G} {l l' : List ε}

lemma runs_of_runTurns [DecidablePred running] {n : ℕ}
    (hruns : runTurns running turn n s g = some (l, t, h)) :
    Runs running turn s g l t h := by
  induction n generalizing s g l with
  | zero =>
    cases hruns
    exact .refl _ _
  | succ n ih =>
    unfold runTurns at hruns
    by_cases hrun : running s
    · rw [if_pos hrun] at hruns
      cases hturn : turn s g with
      | error fault =>
        rw [hturn] at hruns
        cases hruns
      | ok r =>
        obtain ⟨⟨e, s'⟩, g'⟩ := r
        rw [hturn] at hruns
        obtain ⟨⟨l, t, h⟩, hrest, hsame⟩ := Option.map_eq_some_iff.mp hruns
        cases hsame
        exact .turn hrun hturn (ih hrest)
    · rw [if_neg hrun] at hruns
      cases hruns

/-- What every turn preserves and reports, holds along a run. -/
lemma Runs.invariant (Good : ε → Prop)
    (hstep : ∀ s, Inv s → running s → Ensures (turn s) fun r => Inv r.2 ∧ Good r.1)
    (hruns : Runs running turn s g l t h) (hs : Inv s) : Inv t ∧ ∀ e ∈ l, Good e := by
  induction hruns with
  | refl s g => exact ⟨hs, fun e he => absurd he List.not_mem_nil⟩
  | turn hrun hturn _ ih =>
    obtain ⟨hinv, hgood⟩ := hstep _ hs hrun _ _ _ hturn
    obtain ⟨hlast, hrest⟩ := ih hinv
    refine ⟨hlast, ?_⟩
    intro e he
    cases List.mem_cons.mp he with
    | inl heq =>
      rw [heq]
      exact hgood
    | inr hmem => exact hrest e hmem

lemma Runs.split (hruns : Runs running turn s g (l ++ l') t h) :
    ∃ u k, Runs running turn s g l u k ∧ Runs running turn u k l' t h := by
  induction l generalizing s g with
  | nil => exact ⟨s, g, .refl s g, hruns⟩
  | cons e l ih =>
    cases hruns with
    | turn hrun hturn rest =>
      obtain ⟨u, k, hfirst, hlast⟩ := ih rest
      exact ⟨u, k, .turn hrun hturn hfirst, hlast⟩

/-- Turns whose events are quiet pay for the weight of their event from a potential. -/
lemma Runs.potential (Quiet : ε → Prop) (weight : ε → ℕ) (potential : σ → ℕ)
    (hstep : ∀ s, Inv s → running s → Ensures (turn s) fun r =>
      Inv r.2 ∧ (Quiet r.1 → weight r.1 + potential r.2 ≤ potential s))
    (hruns : Runs running turn s g l t h) (hs : Inv s) (hquiet : ∀ e ∈ l, Quiet e) :
    (l.map weight).sum + potential t ≤ potential s := by
  induction hruns with
  | refl s g => simp
  | turn hrun hturn _ ih =>
    obtain ⟨hinv, hweight⟩ := hstep _ hs hrun _ _ _ hturn
    have hfirst := hweight (hquiet _ List.mem_cons_self)
    have hrest := ih hinv fun e he => hquiet e (List.mem_cons_of_mem _ he)
    dsimp only at hfirst
    rw [List.map_cons, List.sum_cons]
    omega

/-- A program that unfolds into turns returns what the last state of a complete run holds. -/
lemma exists_runs_of_unfold (finish : σ → Draw G α) (result : σ → α) (measure : σ → ℕ)
    (hstep : ∀ s, Inv s → running s →
      Ensures (turn s) fun r => Inv r.2 ∧ 1 + measure r.2 ≤ measure s)
    (hunfold : ∀ s, running s → finish s = turn s >>= fun r => finish r.2)
    (hdone : ∀ s, ¬running s → finish s = pure (result s)) (hs : Inv s) {a : α}
    (hfinish : finish s g = .ok (a, h)) :
    ∃ l t, Runs running turn s g l t h ∧ ¬running t ∧ a = result t := by
  induction hn : measure s using Nat.strong_induction_on generalizing s g with
  | h n ih =>
    by_cases hrun : running s
    · rw [hunfold s hrun] at hfinish
      obtain ⟨⟨e, s'⟩, g', hturn, hrest⟩ := Draw.exists_of_bind hfinish
      obtain ⟨hinv, hmeasure⟩ := hstep s hs hrun g _ g' hturn
      have hlt : measure s' < n := by
        dsimp only at hmeasure
        omega
      obtain ⟨l, t, hruns, hlast, ha⟩ := ih (measure s') hlt hinv hrest rfl
      exact ⟨e :: l, t, .turn hrun hturn hruns, hlast, ha⟩
    · rw [hdone s hrun] at hfinish
      cases hfinish
      exact ⟨[], s, .refl s _, hrun, rfl⟩

end RandomXSp1
