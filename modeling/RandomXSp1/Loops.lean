import Mathlib

/-!
# Vectors, counted loops and loops that update a vector in place

A position that is bounded by its type needs no proof of a bound. A loop over an interval that may
fail is a `foldlM`; its rule carries an invariant indexed by the counter. A `while` loop runs for a
granted number of rounds, and `Steps` records the states in which its body was entered. A loop that
updates a vector entry by entry, at positions that do not repeat, leaves at each position the update
of what the vector held there before the loop.
-/

/-- `set` at a bounded position. -/
abbrev Vector.setFin {α : Type*} {n : ℕ} (v : Vector α n) (i : Fin n) (x : α) : Vector α n :=
  v.set i x

namespace RandomXSp1

/-! ## Vectors at bounded positions -/

section
variable {α : Type*} {n : ℕ}

instance getElemFin : GetElem (Vector α n) (Fin n) α fun _ _ => True where
  getElem v i _ := v.get i

@[simp] lemma getElem_fin_eq (v : Vector α n) (i : Fin n) : v[i] = v[i.val] := rfl

lemma getElem_map_fin {β : Type*} (f : α → β) (v : Vector α n) (i : Fin n) :
    (v.map f)[i] = f v[i] := Vector.getElem_map f i.isLt

end

instance neZero_two : NeZero 2 := ⟨by decide⟩
instance neZero_three : NeZero 3 := ⟨by decide⟩
instance neZero_four : NeZero 4 := ⟨by decide⟩
instance neZero_eight : NeZero 8 := ⟨by decide⟩
instance neZero_sixteen : NeZero 16 := ⟨by decide⟩

/-! ## Counted loops -/

section
variable {σ : Type*} {f : σ → ℕ → Option σ} {P : ℕ → σ → Prop}

/-- If every iteration succeeds and advances the invariant, the loop succeeds. -/
lemma foldlM_range'_invariant {a n : ℕ}
    (step : ∀ k s, a ≤ k → k < a + n → P k s → ∃ s', f s k = some s' ∧ P (k + 1) s')
    {s : σ} (init : P a s) :
    ∃ s', (List.range' a n).foldlM f s = some s' ∧ P (a + n) s' := by
  induction n generalizing a s with
  | zero => exact ⟨s, rfl, init⟩
  | succ n ih =>
    obtain ⟨s₁, hs₁, h₁⟩ := step a s le_rfl (by omega) init
    have rest := ih (a := a + 1) (s := s₁) (fun k s hk hk' => step k s (by omega) (by omega)) h₁
    rw [List.range'_succ, List.foldlM_cons, hs₁]
    rw [show a + 1 + n = a + (n + 1) from by omega] at rest
    exact rest

end

/-- Two loops over one interval, in lockstep. -/
lemma foldlM_range'_lockstep {σ τ : Type*} {f : σ → ℕ → Option σ} {g : τ → ℕ → Option τ}
    {P : ℕ → σ → τ → Prop} {a n : ℕ}
    (step : ∀ k s t, a ≤ k → k < a + n → P k s t →
      ∃ s' t', f s k = some s' ∧ g t k = some t' ∧ P (k + 1) s' t')
    {s : σ} {t : τ} (init : P a s t) :
    ∃ s' t', (List.range' a n).foldlM f s = some s' ∧ (List.range' a n).foldlM g t = some t' ∧
      P (a + n) s' t' := by
  induction n generalizing a s t with
  | zero => exact ⟨s, t, rfl, rfl, init⟩
  | succ n ih =>
    obtain ⟨s₁, t₁, hs₁, ht₁, h₁⟩ := step a s t le_rfl (by omega) init
    have rest := ih (a := a + 1) (fun k s t hk hk' => step k s t (by omega) (by omega)) h₁
    rw [List.range'_succ, List.foldlM_cons, hs₁, List.foldlM_cons, ht₁]
    rw [show a + 1 + n = a + (n + 1) from by omega] at rest
    exact rest

/-- A loop over a list succeeds if its body does, on every state. -/
lemma exists_foldlM {σ α : Type*} {f : σ → α → Option σ} {l : List α}
    (h : ∀ s, ∀ a ∈ l, ∃ s', f s a = some s') (s : σ) : ∃ s', l.foldlM f s = some s' := by
  induction l generalizing s with
  | nil => exact ⟨s, rfl⟩
  | cons a l ih =>
    obtain ⟨s', hs'⟩ := h s a List.mem_cons_self
    rw [List.foldlM_cons, hs']
    exact ih (fun s b hb => h s b (List.mem_cons_of_mem a hb)) s'

/-- What every iteration preserves, the loop preserves. -/
lemma foldlM_preserves {σ α : Type*} {f : σ → α → Option σ} {P : σ → Prop}
    (h : ∀ s a s', P s → f s a = some s' → P s') {l : List α} {s s' : σ} (hs : P s)
    (hl : l.foldlM f s = some s') : P s' := by
  induction l generalizing s with
  | nil =>
    obtain rfl := Option.some.inj hl
    exact hs
  | cons a l ih =>
    obtain ⟨s₁, hs₁, hrest⟩ := Option.bind_eq_some_iff.mp (List.foldlM_cons.symm.trans hl)
    exact ih (h s a s₁ hs hs₁) hrest

/-- A loop over the images of states under a body that never fails there. -/
lemma foldlM_eq_foldl {σ τ α : Type*} {f : τ → α → Option τ} {step : σ → α → σ} (g : σ → τ)
    (h : ∀ s a, f (g s) a = some (g (step s a))) (l : List α) (s : σ) :
    l.foldlM f (g s) = some (g (l.foldl step s)) := by
  induction l generalizing s with
  | nil => rfl
  | cons a l ih =>
    rw [List.foldlM_cons, h, List.foldl_cons]
    exact ih (step s a)

/-- A loop over the images of states under a simulating body. -/
lemma foldlM_map {σ τ α : Type*} {f : σ → α → Option σ} {f' : τ → α → Option τ} (g : σ → τ)
    (h : ∀ s a, f' (g s) a = (f s a).map g) (l : List α) (s : σ) :
    l.foldlM f' (g s) = (l.foldlM f s).map g := by
  induction l generalizing s with
  | nil => rfl
  | cons a l ih =>
    rw [List.foldlM_cons, List.foldlM_cons, h]
    cases f s a with
    | none => rfl
    | some s' => exact ih s'

/-- What a loop returns, a loop with a body that follows it returns, up to the relation. -/
lemma foldlM_follows {σ τ α : Type*} {f : σ → α → Option σ} {g : τ → α → Option τ}
    {R : σ → τ → Prop}
    (h : ∀ s t a s', R s t → f s a = some s' → ∃ t', g t a = some t' ∧ R s' t') {l : List α}
    {s s' : σ} {t : τ} (hR : R s t) (hl : l.foldlM f s = some s') :
    ∃ t', l.foldlM g t = some t' ∧ R s' t' := by
  induction l generalizing s t with
  | nil =>
    obtain rfl := Option.some.inj hl
    exact ⟨t, rfl, hR⟩
  | cons a l ih =>
    rw [List.foldlM_cons] at hl ⊢
    obtain ⟨s₁, hs₁, hrest⟩ := Option.bind_eq_some_iff.mp hl
    obtain ⟨t₁, ht₁, hR₁⟩ := h s t a s₁ hR hs₁
    rw [ht₁]
    exact ih hR₁ hrest

/-- A loop reads its body only where the invariant holds. -/
lemma foldlM_congr_of_invariant {σ α : Type*} {f f' : σ → α → Option σ} {P : σ → Prop}
    (step : ∀ s a s', P s → f s a = some s' → P s') (h : ∀ s a, P s → f' s a = f s a)
    (l : List α) {s : σ} (hs : P s) : l.foldlM f' s = l.foldlM f s := by
  induction l generalizing s with
  | nil => rfl
  | cons a l ih =>
    rw [List.foldlM_cons, List.foldlM_cons, h s a hs]
    cases hf : f s a with
    | none => rfl
    | some s' => exact ih (step s a s' hs hf)

/-- A loop that keeps an invariant succeeds if and only if its body does on every item. -/
lemma exists_foldlM_iff {σ α : Type*} {f : σ → α → Option σ} {P : σ → Prop} {Q : α → Prop}
    {l : List α} (keep : ∀ s a s', P s → f s a = some s' → P s')
    (h : ∀ s, P s → ∀ a ∈ l, (∃ s', f s a = some s') ↔ Q a) {s : σ} (hs : P s) :
    (∃ s', l.foldlM f s = some s') ↔ ∀ a ∈ l, Q a := by
  induction l generalizing s with
  | nil => exact ⟨fun _ a ha => absurd ha List.not_mem_nil, fun _ => ⟨s, rfl⟩⟩
  | cons a l ih =>
    have hrest := fun s' hs' => ih (fun s hs b hb => h s hs b (List.mem_cons_of_mem a hb))
      (s := s') hs'
    rw [List.forall_mem_cons, ← h s hs a List.mem_cons_self, List.foldlM_cons]
    constructor
    · rintro ⟨t, ht⟩
      obtain ⟨s', hs', hl⟩ := Option.bind_eq_some_iff.mp ht
      exact ⟨⟨s', hs'⟩, (hrest s' (keep s a s' hs hs')).mp ⟨t, hl⟩⟩
    · rintro ⟨⟨s', hs'⟩, hl⟩
      rw [hs']
      exact (hrest s' (keep s a s' hs hs')).mpr hl

/-- A loop that collects a result for each item collects them in order. -/
lemma forall₂_of_foldlM {σ α β : Type*} {f : σ × List β → α → Option (σ × List β)}
    {R : α → β → Prop} (h : ∀ s a s', f s a = some s' → ∃ b, R a b ∧ s'.2 = s.2 ++ [b])
    {l : List α} {s s' : σ × List β} (hl : l.foldlM f s = some s') :
    ∃ bs, List.Forall₂ R l bs ∧ s'.2 = s.2 ++ bs := by
  induction l generalizing s with
  | nil =>
    obtain rfl := Option.some.inj hl
    exact ⟨[], .nil, (List.append_nil _).symm⟩
  | cons a l ih =>
    obtain ⟨s₁, hs₁, hrest⟩ := Option.bind_eq_some_iff.mp (List.foldlM_cons.symm.trans hl)
    obtain ⟨b, hb, heq⟩ := h s a s₁ hs₁
    obtain ⟨bs, hbs, heq'⟩ := ih hrest
    refine ⟨b :: bs, .cons hb hbs, ?_⟩
    rw [heq', heq, List.append_assoc]
    rfl

/-- What holds at every index holds of every item. -/
lemma forall_range_getElem {α : Type*} {l : List α} {P : α → Prop} :
    (∀ k ∈ List.range l.length, ∃ a, l[k]? = some a ∧ P a) ↔ ∀ a ∈ l, P a := by
  constructor
  · intro h a ha
    obtain ⟨k, hk, rfl⟩ := List.getElem_of_mem ha
    obtain ⟨a, heq, hP⟩ := h k (List.mem_range.mpr hk)
    obtain ⟨_, rfl⟩ := List.getElem?_eq_some_iff.mp heq
    exact hP
  · intro h k hk
    have hk := List.mem_range.mp hk
    exact ⟨l[k], List.getElem?_eq_getElem hk, h _ (List.getElem_mem hk)⟩

lemma forall₂_and_right {α β : Type*} {R : α → β → Prop} {P : β → Prop} {l : List α} {bs : List β} :
    List.Forall₂ (fun a b => R a b ∧ P b) l bs ↔ List.Forall₂ R l bs ∧ ∀ b ∈ bs, P b := by
  constructor
  · intro h
    induction h with
    | nil => exact ⟨.nil, fun _ hb => absurd hb List.not_mem_nil⟩
    | cons hab _ ih => exact ⟨.cons hab.1 ih.1, List.forall_mem_cons.mpr ⟨hab.2, ih.2⟩⟩
  · rintro ⟨h, hP⟩
    induction h with
    | nil => exact .nil
    | cons hab _ ih =>
      obtain ⟨hb, hrest⟩ := List.forall_mem_cons.mp hP
      exact .cons ⟨hab, hb⟩ (ih hrest)

/-- The items of a list by their indices. -/
lemma forall₂_of_range {α β : Type*} {R : α → β → Prop} {l : List α} {bs : List β}
    (h : List.Forall₂ (fun k b => ∃ a, l[k]? = some a ∧ R a b) (List.range l.length) bs) :
    List.Forall₂ R l bs := by
  rw [List.forall₂_iff_get] at h ⊢
  obtain ⟨hlength, hR⟩ := h
  rw [List.length_range] at hlength
  refine ⟨hlength, ?_⟩
  intro k hk hk'
  obtain ⟨a, ha, hab⟩ := hR k (by rwa [List.length_range]) hk'
  rw [List.get_eq_getElem, List.getElem_range] at ha
  obtain ⟨_, rfl⟩ := List.getElem?_eq_some_iff.mp ha
  exact hab

/-! ## While loops -/

section
variable {σ τ : Type*} (cond : σ → Bool) (body : σ → Option σ)

/-- The loop, for at most the given number of rounds. -/
def whileLoop : ℕ → σ → Option σ
  | 0, s => if cond s then none else some s
  | rounds + 1, s => if cond s then (body s).bind (whileLoop rounds) else some s

/-- The states in which the body is entered, for at most the given number of rounds. -/
def entered : ℕ → σ → List σ
  | 0, _ => []
  | rounds + 1, s =>
    if cond s then s :: ((body s).map (entered rounds)).getD [] else []

/-- Some rounds of the loop, with the states in which the body was entered. -/
inductive Steps : σ → List σ → σ → Prop
  | refl (s : σ) : Steps s [] s
  | step {s s' t : σ} {l : List σ} (hc : cond s) (hs : body s = some s') (ht : Steps s' l t) :
    Steps s (s :: l) t

variable {cond body}

lemma Steps.single {s s' : σ} (hc : cond s) (hs : body s = some s') :
    Steps cond body s [s] s' :=
  .step hc hs (.refl s')

lemma Steps.trans {s t u : σ} {l l' : List σ} (h : Steps cond body s l t)
    (h' : Steps cond body t l' u) : Steps cond body s (l ++ l') u := by
  induction h with
  | refl s => exact h'
  | step hc hs _ ih => exact .step hc hs (ih h')

/-- The body is entered only where the loop goes on, and succeeds. -/
lemma Steps.of_mem {s t u : σ} {l : List σ} (h : Steps cond body s l t) (hu : u ∈ l) :
    cond u ∧ ∃ u', body u = some u' := by
  induction h with
  | refl s => exact absurd hu List.not_mem_nil
  | step hc hs _ ih =>
    rcases List.mem_cons.mp hu with rfl | hu
    · exact ⟨hc, _, hs⟩
    · exact ih hu

/-- An invariant of the body holds after any number of rounds. -/
lemma Steps.invariant {P : σ → Prop} (step : ∀ s s', cond s → body s = some s' → P s → P s')
    {s t : σ} {l : List σ} (h : Steps cond body s l t) (hs : P s) : P t := by
  induction h with
  | refl s => exact hs
  | step hc hb _ ih => exact ih (step _ _ hc hb hs)

/-- Rounds that lead out of the loop are what the loop does, given at least as many rounds. -/
lemma Steps.whileLoop_eq {s t : σ} {l : List σ} (h : Steps cond body s l t) (ht : ¬cond t)
    {rounds : ℕ} (hr : l.length ≤ rounds) :
    whileLoop cond body rounds s = some t ∧ entered cond body rounds s = l := by
  induction h generalizing rounds with
  | refl s =>
    cases rounds with
    | zero => exact ⟨if_neg ht, rfl⟩
    | succ rounds => exact ⟨if_neg ht, if_neg ht⟩
  | step hc hs _ ih =>
    cases rounds with
    | zero => exact absurd hr (by simp)
    | succ rounds =>
      have hrest := ih ht (show _ ≤ rounds by simpa using hr)
      rw [whileLoop, if_pos hc, entered, if_pos hc, hs, Option.bind_some, Option.map_some,
        Option.getD_some, hrest.1, hrest.2]
      exact ⟨rfl, rfl⟩

/-- Rounds of the loop are the first of the rounds that lead out of it. -/
lemma Steps.isPrefix {s t u : σ} {l l' : List σ} (h : Steps cond body s l t)
    (h' : Steps cond body s l' u) (hu : ¬cond u) : l <+: l' := by
  induction h generalizing l' with
  | refl s => exact List.nil_prefix
  | step hc hs _ ih =>
    cases h' with
    | refl s => exact absurd hc hu
    | step hc' hs' ht' =>
      obtain rfl := Option.some.inj (hs.symm.trans hs')
      exact List.cons_prefix_cons.mpr ⟨rfl, ih ht'⟩

/-- A run of the loop is made of its rounds. -/
lemma exists_steps_of_whileLoop {rounds : ℕ} {s t : σ} (h : whileLoop cond body rounds s = some t) :
    Steps cond body s (entered cond body rounds s) t ∧ ¬cond t := by
  induction rounds generalizing s with
  | zero =>
    unfold whileLoop at h
    split at h
    · exact absurd h nofun
    · obtain rfl := Option.some.inj h
      exact ⟨.refl _, ‹_›⟩
  | succ rounds ih =>
    unfold whileLoop at h
    unfold entered
    split at h
    · rename_i hc
      obtain ⟨s', hs, hrest⟩ := Option.bind_eq_some_iff.mp h
      have ⟨hsteps, ht⟩ := ih hrest
      rw [if_pos hc, hs]
      exact ⟨.step hc hs hsteps, ht⟩
    · rename_i hc
      obtain rfl := Option.some.inj h
      rw [if_neg hc]
      exact ⟨.refl _, hc⟩

/-- A loop reads its body only in the states it reaches. -/
lemma whileLoop_congr {body' : σ → Option σ} {s : σ}
    (h : ∀ l t, Steps cond body s l t → body' t = body t) (rounds : ℕ) :
    whileLoop cond body' rounds s = whileLoop cond body rounds s := by
  induction rounds generalizing s with
  | zero => rfl
  | succ rounds ih =>
    unfold whileLoop
    split
    · rename_i hc
      rw [h [] s (.refl s)]
      cases hs : body s with
      | none => rfl
      | some s' =>
        rw [Option.bind_some, Option.bind_some]
        exact ih fun l t hsteps => h (s :: l) t (.step hc hs hsteps)
    · rfl

section
variable {cond' : τ → Bool} {body' : τ → Option τ} (g : σ → τ)

/-- A loop over the images of states under a simulating body. -/
lemma whileLoop_map (hcond : ∀ s, cond' (g s) = cond s)
    (hbody : ∀ s, cond s → body' (g s) = (body s).map g) (rounds : ℕ) (s : σ) :
    whileLoop cond' body' rounds (g s) = (whileLoop cond body rounds s).map g := by
  induction rounds generalizing s with
  | zero =>
    unfold whileLoop
    rw [hcond]
    split <;> rfl
  | succ rounds ih =>
    unfold whileLoop
    rw [hcond]
    split
    · rename_i hc
      rw [hbody s hc]
      cases body s with
      | none => rfl
      | some s' => exact ih s'
    · rfl

lemma entered_map (hcond : ∀ s, cond' (g s) = cond s)
    (hbody : ∀ s, cond s → body' (g s) = (body s).map g) (rounds : ℕ) (s : σ) :
    entered cond' body' rounds (g s) = (entered cond body rounds s).map g := by
  induction rounds generalizing s with
  | zero => rfl
  | succ rounds ih =>
    unfold entered
    rw [hcond]
    split
    · rename_i hc
      rw [hbody s hc, List.map_cons]
      cases body s with
      | none => rfl
      | some s' => exact congrArg _ (ih s')
    · rfl

lemma Steps.map (hcond : ∀ s, cond' (g s) = cond s)
    (hbody : ∀ s, cond s → body' (g s) = (body s).map g) {s t : σ} {l : List σ}
    (h : Steps cond body s l t) : Steps cond' body' (g s) (l.map g) (g t) := by
  induction h with
  | refl s => exact .refl (g s)
  | step hc hs _ ih =>
    refine .step ?_ ?_ ih
    · rw [hcond]
      exact hc
    · rw [hbody _ hc, hs]
      rfl

/-- The rounds of a loop over images are the images of rounds. -/
lemma Steps.exists_of_map (hcond : ∀ s, cond' (g s) = cond s)
    (hbody : ∀ s, cond s → body' (g s) = (body s).map g) {s : σ} {l' : List τ} {t' : τ}
    (h : Steps cond' body' (g s) l' t') : ∃ l t, Steps cond body s l t ∧ g t = t' := by
  generalize hstart : g s = s' at h
  induction h generalizing s with
  | refl s' => exact ⟨[], s, .refl s, hstart⟩
  | step hc hs _ ih =>
    rw [← hstart] at hc hs
    rw [hcond] at hc
    rw [hbody s hc] at hs
    obtain ⟨s₁, hs₁, hstart₁⟩ := Option.map_eq_some_iff.mp hs
    obtain ⟨l, t, hsteps, ht⟩ := ih hstart₁
    exact ⟨s :: l, t, .step hc hs₁ hsteps, ht⟩

/-- What a loop returns, a loop with a body that follows it returns. -/
lemma whileLoop_follows (hcond : ∀ s, cond' (g s) = cond s)
    (hbody : ∀ s s', cond s → body s = some s' → body' (g s) = some (g s')) {rounds : ℕ} {s t : σ}
    (h : whileLoop cond body rounds s = some t) : whileLoop cond' body' rounds (g s) = some (g t) := by
  induction rounds generalizing s with
  | zero =>
    unfold whileLoop at h ⊢
    rw [hcond]
    split at h
    · exact absurd h nofun
    · rw [if_neg ‹_›, Option.some.inj h]
  | succ rounds ih =>
    unfold whileLoop at h ⊢
    rw [hcond]
    split at h
    · rename_i hc
      obtain ⟨s', hs, hrest⟩ := Option.bind_eq_some_iff.mp h
      rw [if_pos hc, hbody s s' hc hs, Option.bind_some]
      exact ih hrest
    · rw [if_neg ‹_›, Option.some.inj h]

end

/-- What a loop returns, a loop with a body that follows it returns, up to the relation. -/
lemma whileLoop_related {cond' : τ → Bool} {body' : τ → Option τ} {R : σ → τ → Prop}
    (hcond : ∀ s t, R s t → cond' t = cond s)
    (hbody : ∀ s t s', R s t → cond s → body s = some s' → ∃ t', body' t = some t' ∧ R s' t')
    {rounds : ℕ} {s s' : σ} {t : τ} (hR : R s t) (h : whileLoop cond body rounds s = some s') :
    ∃ t', whileLoop cond' body' rounds t = some t' ∧ R s' t' := by
  induction rounds generalizing s t with
  | zero =>
    unfold whileLoop at h ⊢
    rw [hcond s t hR]
    split at h
    · exact absurd h nofun
    · rw [if_neg ‹_›, ← Option.some.inj h]
      exact ⟨t, rfl, hR⟩
  | succ rounds ih =>
    unfold whileLoop at h ⊢
    rw [hcond s t hR]
    split at h
    · rename_i hc
      obtain ⟨s₁, hs₁, hrest⟩ := Option.bind_eq_some_iff.mp h
      obtain ⟨t₁, ht₁, hR₁⟩ := hbody s t s₁ hR hc hs₁
      rw [if_pos hc, ht₁]
      exact ih hR₁ hrest
    · rw [if_neg ‹_›, ← Option.some.inj h]
      exact ⟨t, rfl, hR⟩

end

/-! ## Counting rounds -/

/-- A list whose selected entries take few values, each of them rarely, has few such entries. -/
lemma countP_le_mul_card {σ ι : Type*} [DecidableEq ι] {p : σ → Bool} {f : σ → ι} {S : Finset ι}
    {bound : ℕ} {l : List σ} (hmem : ∀ s ∈ l, p s → f s ∈ S)
    (hbound : ∀ k ∈ S, l.countP (fun s => f s = k) ≤ bound) : l.countP p ≤ bound * S.card := by
  have hsum : l.countP p ≤ ∑ k ∈ S, l.countP (fun s => f s = k) := by
    clear hbound
    induction l with
    | nil => exact Nat.zero_le _
    | cons s l ih =>
      have hrest := ih (fun u hu => hmem u (List.mem_cons_of_mem s hu))
      simp only [List.countP_cons, decide_eq_true_eq, Finset.sum_add_distrib]
      apply Nat.add_le_add hrest
      by_cases hs : p s
      · rw [if_pos hs, Finset.sum_ite_eq, if_pos (hmem s List.mem_cons_self hs)]
      · rw [if_neg hs]
        exact Nat.zero_le _
  calc l.countP p ≤ ∑ k ∈ S, l.countP (fun s => f s = k) := hsum
    _ ≤ ∑ _ ∈ S, bound := Finset.sum_le_sum hbound
    _ = bound * S.card := by rw [Finset.sum_const, smul_eq_mul, Nat.mul_comm]

/-! ## In-place updates -/

section
variable {α ι : Type*} {n : ℕ} (update : ι → α → α) (position : ι → Fin n)

/-- `v[position i] = update i v[position i]` for each `i` of the list in turn. -/
def scatter (l : List ι) (v : Vector α n) : Vector α n :=
  l.foldl (fun v i => v.set (position i) (update i v[position i])) v

variable {update position}

lemma getElem_scatter_of_forall_ne {l : List ι} {v : Vector α n} {k : Fin n}
    (hk : ∀ i ∈ l, position i ≠ k) : (scatter update position l v)[k] = v[k] := by
  induction l generalizing v with
  | nil => rfl
  | cons i l ih =>
    have hi : (position i : ℕ) ≠ k := fun h => hk i (by simp) (Fin.ext h)
    have hl : ∀ j ∈ l, position j ≠ k := fun j hj => hk j (by simp [hj])
    show (scatter update position l (v.set (position i) (update i v[position i])))[k] = v[k]
    rw [ih hl]
    exact Vector.getElem_set_ne _ _ hi

lemma getElem_scatter {l : List ι} (hl : l.Nodup) (hinj : Function.Injective position)
    {v : Vector α n} {i : ι} (hi : i ∈ l) :
    (scatter update position l v)[position i] = update i v[position i] := by
  induction l generalizing v with
  | nil => simp at hi
  | cons j l ih =>
    show (scatter update position l (v.set (position j) (update j v[position j])))[position i] = _
    have hnodup := List.nodup_cons.mp hl
    by_cases hij : i = j
    · subst hij
      rw [getElem_scatter_of_forall_ne]
      · exact Vector.getElem_set_self _
      · intro k hk h
        exact hnodup.1 (hinj h ▸ hk)
    · have hpos : (position j : ℕ) ≠ position i := fun h => hij (hinj (Fin.ext h)).symm
      rw [ih hnodup.2 (by simpa [hij] using hi)]
      congr 1
      exact Vector.getElem_set_ne _ _ hpos

/-- Nested loops are one loop over the pairs of indices. -/
lemma foldl_scatter {κ : Type*} (outer : List κ) (inner : List ι) (update : κ × ι → α → α)
    (position : κ × ι → Fin n) (v : Vector α n) :
    outer.foldl (fun v a => scatter (fun b => update (a, b)) (fun b => position (a, b)) inner v) v
      = scatter update position (outer ×ˢ inner) v := by
  induction outer generalizing v with
  | nil => rfl
  | cons a outer ih =>
    rw [List.foldl_cons, ih, List.product_cons, scatter, scatter, scatter, List.foldl_append,
      List.foldl_map]

end

/-! ## Loops over all entries -/

/-- An invariant indexed by the number of positions visited. -/
lemma foldl_finRange_invariant {σ : Type*} {n : ℕ} {f : σ → Fin n → σ} {P : ℕ → σ → Prop}
    (step : ∀ (i : Fin n) s, P i s → P (i + 1) (f s i)) {s : σ} (init : P 0 s) :
    P n ((List.finRange n).foldl f s) := by
  induction n with
  | zero => exact init
  | succ n ih =>
    rw [List.finRange_succ_last, List.foldl_append, List.foldl_map]
    exact step (Fin.last n) _ (ih (fun i s hs => step i.castSucc s hs))

section
variable {α : Type*} {n : ℕ}

/-- `for i in 0..n { v[i] = update(i, v[i]) }`, where the update may fail. -/
def updateEach (update : Fin n → α → Option α) (v : Vector α n) : Option (Vector α n) :=
  (List.finRange n).foldlM (fun v i => (update i v[i]).map fun a => v.setFin i a) v

/-- An update that never fails is applied to every entry. -/
lemma updateEach_eq {update : Fin n → α → Option α} {f : Fin n → α → α}
    (h : ∀ i a, update i a = some (f i a)) (v : Vector α n) :
    updateEach update v = some (Vector.ofFn fun i => f i v[i]) := by
  have hloop : updateEach update v = some (scatter f id (List.finRange n) v) := by
    unfold updateEach scatter
    generalize List.finRange n = l
    induction l generalizing v with
    | nil => rfl
    | cons i l ih =>
      rw [List.foldlM_cons, h, List.foldl_cons]
      exact ih _
  rw [hloop]
  apply congrArg some
  apply Vector.ext
  intro k hk
  rw [Vector.getElem_ofFn]
  exact getElem_scatter (List.nodup_finRange n) Function.injective_id
    (List.mem_finRange (⟨k, hk⟩ : Fin n))

end

/-! ## Loops on pairs -/

/-- A loop whose two state components do not read each other is two loops. -/
lemma foldl_prod {α β ι : Type*} (f : α → ι → α) (g : β → ι → β) (l : List ι) (a : α) (b : β) :
    l.foldl (fun s i => (f s.1 i, g s.2 i)) (a, b) = (l.foldl f a, l.foldl g b) := by
  induction l generalizing a b with
  | nil => rfl
  | cons i l ih =>
    rw [List.foldl_cons, List.foldl_cons, List.foldl_cons]
    exact ih _ _

end RandomXSp1
