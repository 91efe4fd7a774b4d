import RandomXSp1.DrawRuns

/-!
# Granted rounds

A program with rejection loops is a family of programs, one for each number of rounds that its
loops are granted. More rounds change nothing unless a program used them up (`Grows`), so a program
has one result for all grants that are enough. It settles where some grant is enough (`Settles`);
for a program that unfolds into turns that is where every turn that it takes settles.
-/

namespace RandomXSp1

variable {G σ ε α β : Type}

lemma Draw.bind_of_ok {m : Draw G α} {f : α → Draw G β} {g g' : G} {a : α}
    (h : m g = .ok (a, g')) : (m >>= f) g = f a g' := by
  show ((m g).bind fun p => f p.1 p.2) = _
  rw [h]
  rfl

lemma Draw.bind_of_error {m : Draw G α} {f : α → Draw G β} {g : G} {fault : Fault}
    (h : m g = .error fault) : (m >>= f) g = .error fault := by
  show ((m g).bind fun p => f p.1 p.2) = _
  rw [h]
  rfl

/-! ## Programs without a loop -/

/-- The program does not use up rounds, as it has none. -/
def Loopless (m : Draw G α) : Prop := ∀ g, m g ≠ .error .rejecting

section
variable {m n : Draw G α} {f : α → Draw G β}

lemma Loopless.pure (a : α) : Loopless (pure a : Draw G α) := fun _ => nofun

lemma Loopless.draw (step : G → α × G) : Loopless (fun g => .ok (step g) : Draw G α) := fun _ => nofun

lemma Loopless.panic : Loopless (throw .panic : Draw G α) := by
  intro g h
  cases h

lemma Loopless.expect (o : Option α) : Loopless (Draw.expect o : Draw G α) := by
  cases o with
  | none => exact Loopless.panic
  | some a => exact Loopless.pure a

lemma Loopless.bind (hm : Loopless m) (hf : ∀ a, Loopless (f a)) : Loopless (m >>= f) := by
  intro g
  have hg := hm g
  cases hresult : m g with
  | error fault =>
    rw [hresult] at hg
    rw [Draw.bind_of_error hresult]
    exact fun h => hg (congrArg _ (Except.error.inj h))
  | ok p =>
    rw [Draw.bind_of_ok hresult]
    exact hf p.1 p.2

lemma Loopless.ite {c : Prop} [Decidable c] (hm : Loopless m) (hn : Loopless n) :
    Loopless (if c then m else n) := by
  split
  · exact hm
  · exact hn

end

/-! ## More rounds -/

/-- With more rounds the program does the same, unless it used them up. -/
def Grows (m : ℕ → Draw G α) : Prop :=
  ∀ ⦃rounds rounds' : ℕ⦄, rounds ≤ rounds' → ∀ g, m rounds g ≠ .error .rejecting →
    m rounds' g = m rounds g

section
variable {m n : ℕ → Draw G α} {f : ℕ → α → Draw G β} {P : α → Prop}

lemma Grows.eq_ok (hm : Grows m) {rounds rounds' : ℕ} (hle : rounds ≤ rounds') {g : G}
    {p : α × G} (hp : m rounds g = .ok p) : m rounds' g = .ok p := by
  rw [hm hle g (by rw [hp]; exact nofun), hp]

lemma Grows.const (m : Draw G α) : Grows fun _ => m := fun _ _ _ _ _ => rfl

lemma Grows.bind_of_ensures (hm : Grows m) (hP : ∀ rounds, Ensures (m rounds) P)
    (hf : ∀ a, P a → Grows fun rounds => f rounds a) :
    Grows fun rounds => m rounds >>= f rounds := by
  intro rounds rounds' hle g hg
  dsimp only at hg ⊢
  cases hresult : m rounds g with
  | error fault =>
    rw [Draw.bind_of_error hresult] at hg ⊢
    apply Draw.bind_of_error
    rw [hm hle g, hresult]
    rw [hresult]
    exact fun h => hg (congrArg _ (Except.error.inj h))
  | ok p =>
    rw [Draw.bind_of_ok hresult] at hg ⊢
    rw [Draw.bind_of_ok (hm.eq_ok hle hresult)]
    exact hf p.1 (hP rounds g p.1 p.2 hresult) hle p.2 hg

lemma Grows.bind (hm : Grows m) (hf : ∀ a, Grows fun rounds => f rounds a) :
    Grows fun rounds => m rounds >>= f rounds :=
  hm.bind_of_ensures (fun _ => Ensures.trivial) fun a _ => hf a

lemma Grows.ite {c : Prop} [Decidable c] (hm : Grows m) (hn : Grows n) :
    Grows fun rounds => if c then m rounds else n rounds := by
  by_cases hc : c
  · simp only [if_pos hc]
    exact hm
  · simp only [if_neg hc]
    exact hn

lemma Grows.rejectWhile (reject : α → Bool) (draw : Draw G α) :
    Grows (Draw.rejectWhile reject draw) := by
  intro rounds
  induction rounds with
  | zero => exact fun _ _ _ hg => absurd rfl hg
  | succ rounds ih =>
    intro rounds' hle g hg
    obtain ⟨rounds', rfl⟩ := Nat.exists_eq_add_of_le' (Nat.one_le_of_lt hle)
    rw [Draw.rejectWhile] at hg ⊢
    rw [Draw.rejectWhile]
    cases hdraw : draw g with
    | error fault => rw [Draw.bind_of_error hdraw, Draw.bind_of_error hdraw]
    | ok p =>
      rw [Draw.bind_of_ok hdraw] at hg
      rw [Draw.bind_of_ok hdraw, Draw.bind_of_ok hdraw]
      by_cases hreject : reject p.1
      · rw [if_pos hreject] at hg
        rw [if_pos hreject, if_pos hreject]
        exact ih (Nat.le_of_succ_le_succ hle) p.2 hg
      · rw [if_neg hreject, if_neg hreject]

end

/-! ## Enough rounds -/

/-- Some number of rounds is enough from this state of the generator. -/
def Settles (m : ℕ → Draw G α) (g : G) : Prop := ∃ rounds, m rounds g ≠ .error .rejecting

section
variable {m : ℕ → Draw G α} {f : ℕ → α → Draw G β} {g : G}

lemma Loopless.settles {m : Draw G α} (hm : Loopless m) (g : G) : Settles (fun _ => m) g := ⟨0, hm g⟩

/-- From some grant on the program has its result. -/
lemma Settles.exists_forall (hgrows : Grows m) (hm : Settles m g) :
    ∃ result, result ≠ .error .rejecting ∧ ∃ needed, ∀ rounds, needed ≤ rounds →
      m rounds g = result := by
  obtain ⟨needed, hneeded⟩ := hm
  exact ⟨_, hneeded, needed, fun rounds hle => hgrows hle g hneeded⟩

/-- The first step settles, and so does the rest on what it returns. -/
lemma settles_bind (hm : Grows m) (hf : ∀ rounds g a g', m rounds g = .ok (a, g') →
    Grows fun rounds => f rounds a) :
    Settles (fun rounds => m rounds >>= f rounds) g ↔
      Settles m g ∧ ∀ rounds a g', m rounds g = .ok (a, g') →
        Settles (fun rounds => f rounds a) g' := by
  constructor
  · rintro ⟨needed, hneeded⟩
    dsimp only at hneeded
    have hfirst : m needed g ≠ .error .rejecting := fun h => hneeded (Draw.bind_of_error h)
    refine ⟨⟨needed, hfirst⟩, ?_⟩
    intro rounds a g' ha
    -- both grants give the first step its only result
    have hsame : m needed g = .ok (a, g') := by
      cases le_total needed rounds with
      | inl hle => exact (hm hle g hfirst).symm.trans ha
      | inr hle => exact hm.eq_ok hle ha
    rw [Draw.bind_of_ok hsame] at hneeded
    exact ⟨needed, hneeded⟩
  · rintro ⟨⟨needed, hfirst⟩, hrest⟩
    cases hresult : m needed g with
    | error fault =>
      refine ⟨needed, ?_⟩
      dsimp only
      rw [hresult] at hfirst
      rw [Draw.bind_of_error hresult]
      exact fun h => hfirst (congrArg _ (Except.error.inj h))
    | ok p =>
      obtain ⟨more, hmore⟩ := hrest needed p.1 p.2 hresult
      refine ⟨max needed more, ?_⟩
      dsimp only
      rw [Draw.bind_of_ok (hm.eq_ok (le_max_left needed more) hresult)]
      have hsame := hf needed g p.1 p.2 hresult (le_max_right needed more) p.2 hmore
      dsimp only at hsame hmore
      rw [hsame]
      exact hmore

/-- A rest without a loop settles with the first step. -/
lemma settles_bind_loopless {f : α → Draw G β} (hm : Grows m) (hf : ∀ a, Loopless (f a)) :
    Settles (fun rounds => m rounds >>= f) g ↔ Settles m g :=
  (settles_bind hm fun _ _ a _ _ => Grows.const (f a)).trans
    (and_iff_left fun _ a g' _ => (hf a).settles g')

/-- The values of one request after the other. -/
def drawn (step : G → α × G) (g : G) (n : ℕ) : α := (step ((fun h => (step h).2)^[n] g)).1

/-- One round of a rejection loop whose draws return. -/
lemma rejectWhile_succ (reject : α → Bool) (step : G → α × G) (rounds : ℕ) (g : G) :
    Draw.rejectWhile reject (fun g => .ok (step g)) (rounds + 1) g =
      if reject (step g).1 then Draw.rejectWhile reject (fun g => .ok (step g)) rounds (step g).2
      else .ok (step g) := by
  show (if reject (step g).1 then Draw.rejectWhile reject (fun g => .ok (step g)) rounds
    else pure (step g).1) (step g).2 = _
  split
  · rfl
  · rfl

/-- A rejection loop settles on the streams in which some value is accepted. -/
lemma settles_rejectWhile {reject : α → Bool} {step : G → α × G} :
    Settles (Draw.rejectWhile reject fun g => .ok (step g)) g ↔
      ∃ n, reject (drawn step g n) = false := by
  constructor
  · rintro ⟨rounds, hrounds⟩
    induction rounds generalizing g with
    | zero => exact absurd rfl hrounds
    | succ rounds ih =>
      rw [rejectWhile_succ] at hrounds
      by_cases hreject : reject (step g).1
      · rw [if_pos hreject] at hrounds
        obtain ⟨n, hn⟩ := ih hrounds
        exact ⟨n + 1, hn⟩
      · exact ⟨0, Bool.eq_false_of_not_eq_true hreject⟩
  · rintro ⟨n, hn⟩
    induction n generalizing g with
    | zero =>
      refine ⟨1, ?_⟩
      have hn : reject (step g).1 = false := hn
      rw [rejectWhile_succ, hn]
      exact nofun
    | succ n ih =>
      obtain ⟨rounds, hrounds⟩ := ih (g := (step g).2) hn
      refine ⟨rounds + 1, ?_⟩
      rw [rejectWhile_succ]
      by_cases hreject : reject (step g).1
      · rw [if_pos hreject]
        exact hrounds
      · rw [if_neg hreject]
        exact nofun

/-- A loop settles if each of its turns does, wherever the generator is. -/
lemma grows_foldlM {ι : Type} {step : ℕ → α → ι → Draw G α}
    (h : ∀ a i, Grows fun rounds => step rounds a i) (l : List ι) (a : α) :
    Grows fun rounds => l.foldlM (step rounds) a := by
  induction l generalizing a with
  | nil => exact Grows.const _
  | cons i l ih =>
    simp only [List.foldlM_cons]
    exact (h a i).bind ih

lemma settles_foldlM {ι : Type} {step : ℕ → α → ι → Draw G α}
    (hgrows : ∀ a i, Grows fun rounds => step rounds a i)
    (h : ∀ a i g, Settles (fun rounds => step rounds a i) g) (l : List ι) (a : α) (g : G) :
    Settles (fun rounds => l.foldlM (step rounds) a) g := by
  induction l generalizing a g with
  | nil => exact (Loopless.pure a).settles g
  | cons i l ih =>
    simp only [List.foldlM_cons]
    rw [settles_bind (hgrows a i) fun _ _ a' _ _ => grows_foldlM hgrows l a']
    exact ⟨h a i g, fun _ a' g' _ => ih a' g'⟩

end

/-! ## Turns -/

section
variable {running : σ → Prop} {turn : ℕ → σ → Draw G (ε × σ)} {finish : ℕ → σ → Draw G α}
  {result : σ → α} {Inv : σ → Prop} {measure : σ → ℕ} {s t : σ} {g h : G} {l : List ε}

lemma Runs.grows (hgrows : ∀ s, Grows fun rounds => turn rounds s) {rounds rounds' : ℕ}
    (hle : rounds ≤ rounds') (hruns : Runs running (turn rounds) s g l t h) :
    Runs running (turn rounds') s g l t h := by
  induction hruns with
  | refl s g => exact .refl s g
  | turn hrun hturn _ ih =>
    exact .turn hrun ((hgrows _).eq_ok hle hturn) ih

variable (hstep : ∀ rounds s, Inv s → running s →
    Ensures (turn rounds s) fun r => Inv r.2 ∧ 1 + measure r.2 ≤ measure s)
  (hgrows : ∀ s, Grows fun rounds => turn rounds s)
  (hunfold : ∀ rounds s, running s →
    finish rounds s = turn rounds s >>= fun r => finish rounds r.2)
  (hdone : ∀ rounds s, ¬running s → finish rounds s = pure (result s))
include hstep hgrows hunfold hdone

lemma grows_of_unfold (hs : Inv s) : Grows fun rounds => finish rounds s := by
  induction hn : measure s using Nat.strong_induction_on generalizing s with
  | h n ih =>
    by_cases hrun : running s
    · simp only [hunfold _ s hrun]
      refine (hgrows s).bind_of_ensures (fun rounds => hstep rounds s hs hrun) ?_
      intro r hr
      exact ih (measure r.2) (by omega) hr.1 rfl
    · simp only [hdone _ s hrun]
      exact Grows.const _

/-- The program settles if and only if every turn that its runs come to does. -/
lemma settles_of_unfold (hs : Inv s) :
    Settles (fun rounds => finish rounds s) g ↔
      ∀ rounds l t h, Runs running (turn rounds) s g l t h → running t →
        Settles (fun rounds => turn rounds t) h := by
  induction hn : measure s using Nat.strong_induction_on generalizing s g with
  | h n ih =>
    by_cases hrun : running s
    · simp only [hunfold _ s hrun]
      have hrest {rounds : ℕ} {g : G} {r : ε × σ} {g' : G} (hr : turn rounds s g = .ok (r, g')) :
          Inv r.2 ∧ measure r.2 < n := by
        obtain ⟨hinv, hlt⟩ := hstep rounds s hs hrun g r g' hr
        exact ⟨hinv, by omega⟩
      rw [settles_bind (hgrows s) fun rounds g r g' hr =>
        grows_of_unfold hstep hgrows hunfold hdone (hrest hr).1]
      constructor
      · rintro ⟨hfirst, hlater⟩ rounds l t h hruns ht
        cases hruns with
        | refl => exact hfirst
        | @turn _ s' _ _ g' _ e l _ hturn hruns =>
          obtain ⟨hinv, hlt⟩ := hrest hturn
          exact (ih _ hlt hinv rfl).mp (hlater rounds (e, s') g' hturn) rounds l t h hruns ht
      · intro hturns
        refine ⟨hturns 0 [] s g (.refl s g) hrun, ?_⟩
        intro rounds r g' hr
        obtain ⟨hinv, hlt⟩ := hrest hr
        refine (ih _ hlt hinv rfl).mpr fun rounds' l t h hruns ht => ?_
        -- the larger grant makes the first turn and the run behind it one run
        have hturn := (hgrows s).eq_ok (le_max_left rounds rounds') hr
        exact hturns _ _ t h
          (.turn hrun hturn (hruns.grows hgrows (le_max_right rounds rounds'))) ht
    · simp only [hdone _ s hrun]
      refine iff_of_true ((Loopless.pure (result s)).settles g) ?_
      intro rounds l t h hruns ht
      cases hruns with
      | refl => exact absurd ht hrun
      | turn hgo => exact absurd hgo hrun

end

end RandomXSp1
