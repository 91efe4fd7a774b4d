import RandomXSp1.Superscalar.Generate

/-!
# The search for a common cycle

A macro-operation is scheduled at the first cycle at which each of its micro-operations finds a
free port among those it may use, and takes one such port for each of them.
-/

namespace RandomXSp1.Superscalar

/-! ## The first cycle with a property -/

/-- The least number from `start` on with the property, `none` if there is none. -/
def Earliest (P : ℕ → Prop) (start : ℕ) : Option ℕ → Prop
  | some c => IsLeast {d | start ≤ d ∧ P d} c
  | none => ∀ d, start ≤ d → ¬P d

section
variable {P Q : ℕ → Prop} {start c : ℕ} {a b : Option ℕ}

lemma Earliest.unique (ha : Earliest P start a) (hb : Earliest P start b) : a = b := by
  cases a with
  | none =>
    cases b with
    | none => rfl
    | some d => exact absurd hb.1.2 (ha d hb.1.1)
  | some c =>
    cases b with
    | none => exact absurd ha.1.2 (hb c ha.1.1)
    | some d => exact congrArg some (IsLeast.unique ha hb)

lemma earliest_self (h : P start) : Earliest P start (some start) :=
  ⟨⟨le_rfl, h⟩, fun _ hd => hd.1⟩

lemma Earliest.of_succ (hstart : ¬P start) (h : Earliest P (start + 1) a) : Earliest P start a := by
  have hnext (d : ℕ) (hd : start ≤ d) (hP : P d) : start + 1 ≤ d := by
    apply Nat.lt_of_le_of_ne hd
    intro heq
    exact hstart (heq ▸ hP)
  cases a with
  | none =>
    intro d hd hP
    exact h d (hnext d hd hP) hP
  | some c =>
    refine ⟨⟨by have := h.1.1; omega, h.1.2⟩, ?_⟩
    intro d hd
    exact h.2 ⟨hnext d hd.1 hd.2, hd.2⟩

/-- Two searches that end at the same number found the first one with both properties. -/
lemma Earliest.and (hP : Earliest P start (some c)) (hQ : Earliest Q start (some c)) :
    Earliest (fun d => P d ∧ Q d) start (some c) :=
  ⟨⟨hP.1.1, hP.1.2, hQ.1.2⟩, fun _ hd => hP.2 ⟨hd.1, hd.2.1⟩⟩

lemma Earliest.congr (h : Earliest P start a) (hPQ : ∀ d, P d ↔ Q d) : Earliest Q start a := by
  have heq : P = Q := funext fun d => propext (hPQ d)
  rw [← heq]
  exact h

end

/-! ## Slots -/

/-- The port of a column of the occupation. -/
def portOf : Fin 3 → ExecutionPort := ![.p0, .p1, .p5]

/-- What occupies a port in a cycle; there are no cycles past the end of the map. -/
def slot (busy : PortBusy) (cycle : ℕ) (port : Fin 3) : Option ExecutionPort :=
  busy[cycle]?.map fun row => row.get port

/-- A micro-operation may use a port that nothing occupies. -/
def Free (uop : ExecutionPort) (busy : PortBusy) (cycle : ℕ) (port : Fin 3) : Prop :=
  uop.is (portOf port) = true ∧ slot busy cycle port = some .null

def FreeAt (uop : ExecutionPort) (busy : PortBusy) (cycle : ℕ) : Prop :=
  ∃ port, Free uop busy cycle port

def book (busy : PortBusy) {cycle : ℕ} (h : cycle < cycleMapSize) (port : Fin 3)
    (uop : ExecutionPort) : PortBusy :=
  busy.set cycle ((busy.get ⟨cycle, h⟩).set port uop) h

section
variable {uop : ExecutionPort} {busy : PortBusy} {cycle : ℕ} {port : Fin 3}

lemma slot_of_lt (h : cycle < cycleMapSize) (port : Fin 3) :
    slot busy cycle port = some ((busy.get ⟨cycle, h⟩).get port) := by
  unfold slot
  rw [Vector.getElem?_eq_getElem h]
  rfl

lemma lt_of_slot {value : ExecutionPort} (h : slot busy cycle port = some value) :
    cycle < cycleMapSize := by
  by_contra hge
  unfold slot at h
  rw [Vector.getElem?_eq_none (by omega)] at h
  cases h

lemma ne_null_of_is {check : ExecutionPort} (h : uop.is check = true) : uop ≠ .null := by
  intro hnull
  rw [hnull] at h
  cases check <;> cases h

lemma slot_book (h : cycle < cycleMapSize) (c : ℕ) (q : Fin 3) :
    slot (book busy h port uop) c q = if c = cycle ∧ q = port then some uop else slot busy c q := by
  unfold book slot
  by_cases hc : c = cycle
  · rw [hc, Vector.getElem?_set_self h, Vector.getElem?_eq_getElem h]
    by_cases hq : q = port
    · rw [if_pos ⟨rfl, hq⟩, hq]
      show some (((busy.get ⟨cycle, h⟩).set port uop).get port) = some uop
      rw [Vector.get_eq_getElem, Vector.getElem_set_self]
    · have hne : (port : ℕ) ≠ q := fun heq => hq (Fin.ext heq.symm)
      rw [if_neg (fun hboth => hq hboth.2)]
      show some (((busy.get ⟨cycle, h⟩).set port uop).get q) = some ((busy.get ⟨cycle, h⟩).get q)
      rw [Vector.get_eq_getElem, Vector.getElem_set_ne _ _ hne]
      rfl
  · rw [if_neg (fun hboth => hc hboth.1), Vector.getElem?_set_ne h (Ne.symm hc)]

end

/-! ## One micro-operation -/

/-- The free port that is tried first. -/
def firstFree (uop : ExecutionPort) (row : Vector ExecutionPort 3) : Option (Fin 3) :=
  if uop.is .p5 && row[2] == .null then some 2
  else if uop.is .p0 && row[0] == .null then some 0
  else if uop.is .p1 && row[1] == .null then some 1
  else none

lemma scheduleUop_eq (commit : Bool) (uop : ExecutionPort) (busy : PortBusy) {cycle : ℕ}
    (h : cycle < cycleMapSize) :
    scheduleUop commit uop busy cycle = match firstFree uop (busy.get ⟨cycle, h⟩) with
      | some port => (some cycle, if commit then book busy h port uop else busy)
      | none => scheduleUop commit uop busy (cycle + 1) := by
  rw [scheduleUop, dif_pos h]
  unfold firstFree book
  dsimp only
  split
  · rfl
  split
  · rfl
  split <;> rfl

/-- What the search through the ports of a cycle returns. -/
lemma firstFree_spec (uop : ExecutionPort) (busy : PortBusy) {cycle : ℕ} (h : cycle < cycleMapSize) :
    match firstFree uop (busy.get ⟨cycle, h⟩) with
    | some port => Free uop busy cycle port
    | none => ¬FreeAt uop busy cycle := by
  have htest (port : Fin 3) : Free uop busy cycle port ↔
      (uop.is (portOf port) && (busy.get ⟨cycle, h⟩)[port] == .null) = true := by
    unfold Free
    rw [slot_of_lt h, Bool.and_eq_true, beq_iff_eq, Option.some_inj]
    rfl
  -- the ports are tried in the order P5, P0, P1
  cases hport : firstFree uop (busy.get ⟨cycle, h⟩) with
  | some port =>
    apply (htest port).mpr
    unfold firstFree at hport
    split at hport
    case isTrue h5 =>
      cases hport
      exact h5
    case isFalse =>
      split at hport
      case isTrue h0 =>
        cases hport
        exact h0
      case isFalse =>
        split at hport
        case isTrue h1 =>
          cases hport
          exact h1
        case isFalse => cases hport
  | none =>
    intro hfree
    obtain ⟨port, hfree⟩ := hfree
    have hfree := (htest port).mp hfree
    unfold firstFree at hport
    split at hport
    case isTrue => cases hport
    case isFalse h5 =>
      split at hport
      case isTrue => cases hport
      case isFalse h0 =>
        split at hport
        case isTrue => cases hport
        case isFalse h1 =>
          fin_cases port
          · exact h0 hfree
          · exact h1 hfree
          · exact h5 hfree

lemma lt_of_freeAt {uop : ExecutionPort} {busy : PortBusy} {cycle : ℕ} (h : FreeAt uop busy cycle) :
    cycle < cycleMapSize := by
  obtain ⟨port, hport⟩ := h
  exact lt_of_slot hport.2

/-- A micro-operation starts at the first cycle with a free port, and takes one if it commits. -/
lemma scheduleUop_spec (commit : Bool) (uop : ExecutionPort) (busy : PortBusy) (cycle : ℕ) :
    Earliest (FreeAt uop busy) cycle (scheduleUop commit uop busy cycle).1 ∧
      match scheduleUop commit uop busy cycle with
      | (some c, busy') => ∃ port, ∃ h : c < cycleMapSize, Free uop busy c port ∧
          busy' = if commit then book busy h port uop else busy
      | (none, busy') => busy' = busy := by
  -- the search goes on until a cycle has a free port or the map ends
  induction hn : cycleMapSize - cycle generalizing cycle with
  | zero =>
    have hge : ¬cycle < cycleMapSize := by omega
    rw [scheduleUop, dif_neg hge]
    refine ⟨?_, rfl⟩
    intro d hd hfree
    have := lt_of_freeAt hfree
    omega
  | succ n ih =>
    have h : cycle < cycleMapSize := by omega
    have hfirst := firstFree_spec uop busy h
    rw [scheduleUop_eq commit uop busy h]
    cases hport : firstFree uop (busy.get ⟨cycle, h⟩) with
    | some port =>
      rw [hport] at hfirst
      exact ⟨earliest_self ⟨port, hfirst⟩, port, h, hfirst, rfl⟩
    | none =>
      rw [hport] at hfirst
      obtain ⟨hearliest, heffect⟩ := ih (cycle + 1) (by omega)
      exact ⟨hearliest.of_succ hfirst, heffect⟩

/-! ## Macro-operations -/

/-- The slots that a commit takes: a different port for each micro-operation, free before. -/
def Booked (uops : List ExecutionPort) (busy : PortBusy) (cycle : ℕ) (busy' : PortBusy) : Prop :=
  ∃ ports : List (Fin 3), ports.Nodup ∧
    List.Forall₂ (fun uop port => Free uop busy cycle port ∧ slot busy' cycle port = some uop ∧
      uop ≠ .null) uops ports ∧
    ∀ c port, ¬(c = cycle ∧ port ∈ ports) → slot busy' c port = slot busy c port

namespace ScMacroOp

variable (mop : ScMacroOp)

/-- The micro-operations to be scheduled, of an eliminated macro-operation none. -/
def uops : List ExecutionPort :=
  if mop.isEliminated then [] else if mop.isSimple then [mop.uop1] else [mop.uop1, mop.uop2]

/-- The cycle that the search starts from. -/
def start (cycleIn depCycle : ℕ) : ℕ := if mop.dependent then max cycleIn depCycle else cycleIn

/-- Each micro-operation has a free port in the cycle. -/
def Fits (busy : PortBusy) (cycle : ℕ) : Prop :=
  cycle < cycleMapSize ∧ ∀ uop ∈ mop.uops, FreeAt uop busy cycle

/-- No port is open to both micro-operations. -/
def PortsApart : Prop :=
  ∀ port, ¬(mop.uop1.is (portOf port) = true ∧ mop.uop2.is (portOf port) = true)

end ScMacroOp

lemma booked_nil (busy : PortBusy) (cycle : ℕ) : Booked [] busy cycle busy :=
  ⟨[], List.nodup_nil, .nil, fun _ _ _ => rfl⟩

section
variable {uop uop' : ExecutionPort} {busy : PortBusy} {cycle : ℕ} {port port' : Fin 3}

lemma booked_one (h : cycle < cycleMapSize) (hfree : Free uop busy cycle port) :
    Booked [uop] busy cycle (book busy h port uop) := by
  refine ⟨[port], List.nodup_singleton _, .cons ⟨hfree, ?_, ne_null_of_is hfree.1⟩ .nil, ?_⟩
  · rw [slot_book, if_pos ⟨rfl, rfl⟩]
  · intro c q hq
    rw [slot_book, if_neg (fun hboth => hq ⟨hboth.1, List.mem_singleton.mpr hboth.2⟩)]

/-- A port taken a moment ago is not free. -/
lemma free_book_iff (h : cycle < cycleMapSize) (hfree : Free uop busy cycle port) :
    Free uop' (book busy h port uop) cycle port' ↔ port' ≠ port ∧ Free uop' busy cycle port' := by
  unfold Free
  rw [slot_book]
  by_cases hport : port' = port
  · rw [if_pos ⟨rfl, hport⟩]
    apply iff_of_false
    · intro hboth
      exact ne_null_of_is hfree.1 (Option.some_inj.mp hboth.2)
    · intro hboth
      exact hboth.1 hport
  · rw [if_neg (fun hboth => hport hboth.2)]
    exact (and_iff_right hport).symm

lemma booked_two (h : cycle < cycleMapSize) (hfree : Free uop busy cycle port)
    (hfree' : Free uop' (book busy h port uop) cycle port') :
    Booked [uop, uop'] busy cycle (book (book busy h port uop) h port' uop') := by
  obtain ⟨hne, hbefore⟩ := (free_book_iff h hfree).mp hfree'
  refine ⟨[port, port'], ?_, .cons ⟨hfree, ?_, ne_null_of_is hfree.1⟩
    (.cons ⟨hbefore, ?_, ne_null_of_is hfree'.1⟩ .nil), ?_⟩
  · rw [List.nodup_cons]
    exact ⟨fun hmem => hne (List.mem_singleton.mp hmem).symm, List.nodup_singleton _⟩
  · rw [slot_book, if_neg (fun hboth => hne hboth.2.symm), slot_book, if_pos ⟨rfl, rfl⟩]
  · rw [slot_book, if_pos ⟨rfl, rfl⟩]
  · intro c q hq
    have hout (r : Fin 3) (hr : r ∈ [port, port']) : ¬(c = cycle ∧ q = r) :=
      fun hboth => hq ⟨hboth.1, hboth.2 ▸ hr⟩
    rw [slot_book, if_neg (hout port' (by simp)), slot_book, if_neg (hout port (by simp))]

/-- A committed search at a cycle with a free port takes one there. -/
lemma scheduleUop_commit (hfree : FreeAt uop busy cycle) :
    ∃ port, ∃ h : cycle < cycleMapSize, Free uop busy cycle port ∧
      scheduleUop true uop busy cycle = (some cycle, book busy h port uop) := by
  obtain ⟨hearliest, heffect⟩ := scheduleUop_spec true uop busy cycle
  have hanswer := hearliest.unique (earliest_self hfree)
  cases hresult : scheduleUop true uop busy cycle with
  | mk answer busy' =>
    rw [hresult] at hanswer heffect
    cases hanswer
    obtain ⟨port, h, hport, hbusy⟩ := heffect
    exact ⟨port, h, hport, congrArg _ hbusy⟩

end

/-- A dry run and a failed search leave the occupation as it is. -/
lemma scheduleUop_unchanged {commit : Bool} {uop : ExecutionPort} {busy : PortBusy} {cycle : ℕ}
    (h : commit = false ∨ (scheduleUop commit uop busy cycle).1 = none) :
    (scheduleUop commit uop busy cycle).2 = busy := by
  have heffect := (scheduleUop_spec commit uop busy cycle).2
  cases hresult : scheduleUop commit uop busy cycle with
  | mk answer busy' =>
    rw [hresult] at heffect h
    cases answer with
    | none => exact heffect
    | some c =>
      obtain ⟨port, hc, -, hbusy⟩ := heffect
      have hdry : commit = false := h.resolve_right (Option.some_ne_none c)
      rw [hdry] at hbusy
      exact hbusy

/-- Two micro-operations start at the first cycle at which the separate searches meet. -/
lemma scheduleUops_spec (commit : Bool) (mop : ScMacroOp) (busy : PortBusy) (cycle : ℕ) :
    Earliest (fun d => FreeAt mop.uop1 busy d ∧ FreeAt mop.uop2 busy d) cycle
        (scheduleUops commit mop busy cycle).1 ∧
      match scheduleUops commit mop busy cycle with
      | (some c, busy') => busy' = if commit
          then (scheduleUop true mop.uop2 (scheduleUop true mop.uop1 busy c).2 c).2 else busy
      | (none, busy') => busy' = busy := by
  -- at a cycle where both are free, both searches end at once
  induction hn : cycleMapSize - cycle generalizing cycle with
  | zero =>
    have hge : ¬cycle < cycleMapSize := by omega
    rw [scheduleUops, if_neg hge]
    refine ⟨?_, rfl⟩
    intro d hd hfree
    have := lt_of_freeAt hfree.1
    omega
  | succ n ih =>
    have h : cycle < cycleMapSize := by omega
    have h1 := (scheduleUop_spec false mop.uop1 busy cycle).1
    have h2 := (scheduleUop_spec false mop.uop2 busy cycle).1
    have hnext := ih (cycle + 1) (by omega)
    by_cases hmeet : (scheduleUop false mop.uop1 busy cycle).1
        = (scheduleUop false mop.uop2 busy cycle).1
    · cases hcycle : (scheduleUop false mop.uop1 busy cycle).1 with
      | some c =>
        rw [hcycle] at h1
        rw [← hmeet, hcycle] at h2
        have hresult : scheduleUops commit mop busy cycle = (some c, if commit
            then (scheduleUop true mop.uop2 (scheduleUop true mop.uop1 busy c).2 c).2
            else busy) := by
          rw [scheduleUops, if_pos h]
          simp only [← hmeet, hcycle, ↓reduceIte]
          cases commit <;> rfl
        rw [hresult]
        exact ⟨h1.and h2, rfl⟩
      | none =>
        rw [hcycle] at h1
        have hresult : scheduleUops commit mop busy cycle
            = scheduleUops commit mop busy (cycle + 1) := by
          rw [scheduleUops, if_pos h]
          simp only [hcycle]
        rw [hresult]
        exact ⟨hnext.1.of_succ fun hfree => h1 cycle le_rfl hfree.1, hnext.2⟩
    · have hresult : scheduleUops commit mop busy cycle
          = scheduleUops commit mop busy (cycle + 1) := by
        rw [scheduleUops, if_pos h]
        simp only [hmeet, ↓reduceIte]
        cases (scheduleUop false mop.uop1 busy cycle).1 <;> rfl
      have hapart : ¬(FreeAt mop.uop1 busy cycle ∧ FreeAt mop.uop2 busy cycle) := by
        intro hfree
        apply hmeet
        rw [h1.unique (earliest_self hfree.1), h2.unique (earliest_self hfree.2)]
      rw [hresult]
      exact ⟨hnext.1.of_succ hapart, hnext.2⟩

lemma scheduleUops_unchanged {commit : Bool} {mop : ScMacroOp} {busy : PortBusy} {cycle : ℕ}
    (h : commit = false ∨ (scheduleUops commit mop busy cycle).1 = none) :
    (scheduleUops commit mop busy cycle).2 = busy := by
  have heffect := (scheduleUops_spec commit mop busy cycle).2
  cases hresult : scheduleUops commit mop busy cycle with
  | mk answer busy' =>
    rw [hresult] at heffect h
    cases answer with
    | none => exact heffect
    | some c =>
      have hdry : commit = false := h.resolve_right (Option.some_ne_none c)
      rw [hdry] at heffect
      exact heffect

/-- The two commits of a macro-operation whose micro-operations share no port. -/
lemma booked_scheduleUops {mop : ScMacroOp} (hapart : mop.PortsApart) {busy : PortBusy} {c : ℕ}
    (h1 : FreeAt mop.uop1 busy c) (h2 : FreeAt mop.uop2 busy c) :
    Booked [mop.uop1, mop.uop2] busy c
      (scheduleUop true mop.uop2 (scheduleUop true mop.uop1 busy c).2 c).2 := by
  obtain ⟨port1, h, hport1, hcommit1⟩ := scheduleUop_commit h1
  rw [hcommit1]
  obtain ⟨port2, hport2⟩ := h2
  have hne : port2 ≠ port1 := by
    intro heq
    exact hapart port1 ⟨hport1.1, heq ▸ hport2.1⟩
  have hstill : FreeAt mop.uop2 (book busy h port1 mop.uop1) c :=
    ⟨port2, (free_book_iff h hport1).mpr ⟨hne, hport2⟩⟩
  obtain ⟨port2', _, hport2', hcommit2⟩ := scheduleUop_commit hstill
  rw [hcommit2]
  exact booked_two h hport1 hport2'

/-! ## The schedule of a macro-operation -/

section
variable {mop : ScMacroOp} (commit : Bool) (busy : PortBusy) (cycleIn depCycle : ℕ)

lemma scheduleMop_eliminated (hmop : mop.isEliminated = true) :
    scheduleMop commit mop busy cycleIn depCycle = (some (mop.start cycleIn depCycle), busy) := by
  unfold scheduleMop
  rw [if_pos hmop]
  rfl

lemma scheduleMop_simple (hmop : ¬mop.isEliminated = true) (hsimple : mop.isSimple = true) :
    scheduleMop commit mop busy cycleIn depCycle
      = scheduleUop commit mop.uop1 busy (mop.start cycleIn depCycle) := by
  unfold scheduleMop
  rw [if_neg hmop, if_pos hsimple]
  rfl

lemma scheduleMop_pair (hmop : ¬mop.isEliminated = true) (hpair : ¬mop.isSimple = true) :
    scheduleMop commit mop busy cycleIn depCycle
      = scheduleUops commit mop busy (mop.start cycleIn depCycle) := by
  unfold scheduleMop
  rw [if_neg hmop, if_neg hpair]
  rfl

lemma scheduleMop_earliest (hmop : ¬mop.isEliminated = true) :
    Earliest (mop.Fits busy) (mop.start cycleIn depCycle)
      (scheduleMop commit mop busy cycleIn depCycle).1 := by
  unfold ScMacroOp.Fits ScMacroOp.uops
  rw [if_neg hmop]
  by_cases hsimple : mop.isSimple = true
  · rw [if_pos hsimple, scheduleMop_simple commit busy cycleIn depCycle hmop hsimple]
    apply (scheduleUop_spec commit mop.uop1 busy _).1.congr
    intro d
    rw [List.forall_mem_singleton]
    exact (and_iff_right_of_imp lt_of_freeAt).symm
  · rw [if_neg hsimple, scheduleMop_pair commit busy cycleIn depCycle hmop hsimple]
    apply (scheduleUops_spec commit mop busy _).1.congr
    intro d
    rw [List.forall_mem_cons, List.forall_mem_singleton]
    exact (and_iff_right_of_imp fun hfree => lt_of_freeAt hfree.1).symm

lemma scheduleMop_commit :
    (scheduleMop true mop busy cycleIn depCycle).1
      = (scheduleMop false mop busy cycleIn depCycle).1 := by
  by_cases hmop : mop.isEliminated = true
  · rw [scheduleMop_eliminated true busy cycleIn depCycle hmop,
      scheduleMop_eliminated false busy cycleIn depCycle hmop]
  · exact (scheduleMop_earliest true busy cycleIn depCycle hmop).unique
      (scheduleMop_earliest false busy cycleIn depCycle hmop)

lemma scheduleMop_unchanged
    (h : commit = false ∨ (scheduleMop commit mop busy cycleIn depCycle).1 = none) :
    (scheduleMop commit mop busy cycleIn depCycle).2 = busy := by
  by_cases hmop : mop.isEliminated = true
  · rw [scheduleMop_eliminated commit busy cycleIn depCycle hmop]
  by_cases hsimple : mop.isSimple = true
  · rw [scheduleMop_simple commit busy cycleIn depCycle hmop hsimple] at h ⊢
    exact scheduleUop_unchanged h
  · rw [scheduleMop_pair commit busy cycleIn depCycle hmop hsimple] at h ⊢
    exact scheduleUops_unchanged h

/-- A successful commit takes a free port for each micro-operation, all in the same cycle. -/
lemma scheduleMop_booked (hapart : mop.PortsApart) {c : ℕ}
    (hanswer : (scheduleMop true mop busy cycleIn depCycle).1 = some c) :
    Booked mop.uops busy c (scheduleMop true mop busy cycleIn depCycle).2 := by
  unfold ScMacroOp.uops
  by_cases hmop : mop.isEliminated = true
  · rw [if_pos hmop, scheduleMop_eliminated true busy cycleIn depCycle hmop]
    exact booked_nil busy c
  rw [if_neg hmop]
  by_cases hsimple : mop.isSimple = true
  · rw [scheduleMop_simple true busy cycleIn depCycle hmop hsimple] at hanswer ⊢
    rw [if_pos hsimple]
    have heffect := (scheduleUop_spec true mop.uop1 busy (mop.start cycleIn depCycle)).2
    cases hresult : scheduleUop true mop.uop1 busy (mop.start cycleIn depCycle) with
    | mk answer busy' =>
      rw [hresult] at hanswer heffect
      cases hanswer
      obtain ⟨port, h, hport, hbusy⟩ := heffect
      show Booked _ _ _ busy'
      rw [hbusy]
      exact booked_one h hport
  · rw [scheduleMop_pair true busy cycleIn depCycle hmop hsimple] at hanswer ⊢
    rw [if_neg hsimple]
    obtain ⟨hearliest, heffect⟩ := scheduleUops_spec true mop busy (mop.start cycleIn depCycle)
    cases hresult : scheduleUops true mop busy (mop.start cycleIn depCycle) with
    | mk answer busy' =>
      rw [hresult] at hanswer hearliest heffect
      cases hanswer
      have hfree := hearliest.1.2
      show Booked _ _ _ busy'
      rw [heffect]
      exact booked_scheduleUops hapart hfree.1 hfree.2

end

/-- The macro-operations of the source. -/
def macroOps : List ScMacroOp :=
  [mopSubRr, mopXorRr, mopImulR, mopMulR, mopMovRr, mopLeaSib, mopImulRrDep, mopRorRi, mopAddRi,
    mopXorRi, mopMovRi64, mopImulRr]

instance (mop : ScMacroOp) : Decidable mop.PortsApart :=
  inferInstanceAs (Decidable (∀ port, ¬(mop.uop1.is (portOf port) = true ∧
    mop.uop2.is (portOf port) = true)))

lemma portsApart_of_mem : ∀ mop ∈ macroOps, mop.PortsApart := by decide

/-- The search for a macro-operation answers with the first cycle from its start on that has a
free port for each micro-operation, committing or not, and a commit takes exactly these ports.
The last part rests on the micro-operations sharing no port, as in every macro-operation of the
source. -/
theorem scheduleMop_spec :
    (∀ mop ∈ macroOps, mop.PortsApart) ∧
    ∀ (mop : ScMacroOp) (busy : PortBusy) (cycleIn depCycle : ℕ),
      let start := mop.start cycleIn depCycle
      let dryRun := scheduleMop false mop busy cycleIn depCycle
      let committed := scheduleMop true mop busy cycleIn depCycle
      (if mop.isEliminated then dryRun.1 = some start else Earliest (mop.Fits busy) start dryRun.1) ∧
      committed.1 = dryRun.1 ∧
      dryRun.2 = busy ∧
      (mop.isEliminated ∨ committed.1 = none → committed.2 = busy) ∧
      (mop.PortsApart → ∀ c, committed.1 = some c → Booked mop.uops busy c committed.2) := by
  refine ⟨portsApart_of_mem, ?_⟩
  intro mop busy cycleIn depCycle start dryRun committed
  refine ⟨?_, scheduleMop_commit busy cycleIn depCycle,
    scheduleMop_unchanged false busy cycleIn depCycle (.inl rfl), ?_,
    fun hapart c hanswer => scheduleMop_booked busy cycleIn depCycle hapart hanswer⟩
  · split
    case isTrue hmop => exact congrArg Prod.fst (scheduleMop_eliminated false busy cycleIn depCycle hmop)
    case isFalse hmop => exact scheduleMop_earliest false busy cycleIn depCycle hmop
  · intro h
    cases h with
    | inl hmop =>
      exact congrArg Prod.snd (scheduleMop_eliminated true busy cycleIn depCycle hmop)
    | inr hnone => exact scheduleMop_unchanged true busy cycleIn depCycle (.inr hnone)

lemma scheduleMop_spec_mulR :
    Booked [.p1, .p5] Scheduler.initial.portBusy 5
      (scheduleMop true mopMulR Scheduler.initial.portBusy 5 9).2 := by
  obtain ⟨hearliest, hcommit, -, -, hbooked⟩ := scheduleMop_spec.2 mopMulR Scheduler.initial.portBusy 5 9
  have hslot (port : Fin 3) : slot Scheduler.initial.portBusy 5 port = some .null := by
    rw [slot_of_lt (by decide)]
    fin_cases port <;> simp [Scheduler.initial, Vector.get_eq_getElem]
  have hfits : mopMulR.Fits Scheduler.initial.portBusy 5 := by
    refine ⟨by decide, ?_⟩
    intro uop huop
    have huops : mopMulR.uops = [.p1, .p5] := rfl
    have huop : uop = .p1 ∨ uop = .p5 := by simpa [huops] using huop
    cases huop with
    | inl h => exact ⟨1, by rw [h]; rfl, hslot 1⟩
    | inr h => exact ⟨2, by rw [h]; rfl, hslot 2⟩
  apply hbooked (scheduleMop_spec.1 _ (by decide))
  rw [hcommit]
  exact Earliest.unique hearliest (earliest_self hfits)

end RandomXSp1.Superscalar
