import FlatQuery.Proofs.Rows.Machines

/-!
# Calls one after the other

A machine *supplies* a list if it answers the calls for the next row with the rows of the list, one
after the other, and every further call with the end (`Machine.Supplies`).  To supply a list is to
drain to it without an error and to have nothing more to say after that (`supplies_iff_drain`).  A
machine that gathers supplies what it makes of its input, or refuses the first call
(`supplies_gathered_iff`, `refuses_gathered_iff`).
-/

namespace FlatQuery.Rows

namespace Machine

variable {σ ρ : Type} {m : Machine σ} {fs : Files} {s s' : σ} {row : Row} {rows : List Row}

/-! ### Answers -/

/-- The state after a number of calls for the next row. -/
def after (m : Machine σ) (fs : Files) (s : σ) : Nat → σ
  | 0 => s
  | n + 1 => m.after fs (m.next fs s).2 n

/-- The answer to a call for the next row; the calls are counted from 0. -/
def answer (m : Machine σ) (fs : Files) (s : σ) (n : Nat) : Except Error (Option Row) :=
  (m.next fs (m.after fs s n)).1

/-- That calls are answered with the rows of a list, and then with the end for ever. -/
def Supplies (m : Machine σ) (fs : Files) (s : σ) (rows : List Row) : Prop :=
  ∀ n, m.answer fs s n = .ok rows[n]?

/-- The states that calls lead to, in whatever order they are made and whatever they answer. -/
inductive Reaches (m : Machine σ) (fs : Files) (s : σ) : σ → Prop
  | start : Reaches m fs s s
  | next {t : σ} (h : Reaches m fs s t) : Reaches m fs s (m.next fs t).2
  | reset {t : σ} (h : Reaches m fs s t) : Reaches m fs s (m.reset fs t).2

/-- That a machine supplies a list each time it starts over, whatever was asked of it before. -/
def Repeats (m : Machine σ) (fs : Files) (s : σ) (rows : List Row) : Prop :=
  ∀ t, m.Reaches fs s t → ∃ t', m.reset fs t = (.ok (), t') ∧ m.Supplies fs t' rows

theorem after_of_next {outcome : Except Error (Option Row)} (hn : m.next fs s = (outcome, s'))
    (n : Nat) : m.after fs s (n + 1) = m.after fs s' n := by
  rw [after, hn]

theorem supplies_iff : m.Supplies fs s rows ↔
    (m.next fs s).1 = .ok rows.head? ∧ m.Supplies fs (m.next fs s).2 rows.tail := by
  constructor
  · intro h
    have hhead : (m.next fs s).1 = .ok rows[0]? := h 0
    rw [← List.head?_eq_getElem?] at hhead
    refine ⟨hhead, ?_⟩
    intro n
    rw [List.getElem?_tail]
    exact h (n + 1)
  · rintro ⟨hhead, htail⟩ n
    cases n with
    | zero =>
      rw [← List.head?_eq_getElem?]
      exact hhead
    | succ n =>
      rw [← List.getElem?_tail]
      exact htail n

theorem supplies_nil_iff :
    m.Supplies fs s [] ↔ ∃ s', m.next fs s = (.ok none, s') ∧ m.Supplies fs s' [] := by
  rw [supplies_iff]
  rcases hn : m.next fs s with ⟨outcome, t⟩
  simp [and_comm]

theorem supplies_cons_iff : m.Supplies fs s (row :: rows) ↔
    ∃ s', m.next fs s = (.ok (some row), s') ∧ m.Supplies fs s' rows := by
  rw [supplies_iff]
  rcases hn : m.next fs s with ⟨outcome, t⟩
  simp [and_comm]

theorem Supplies.not_error (h : m.Supplies fs s rows) {e : Error}
    (hn : m.next fs s = (.error e, s')) : False := by
  have hstep := (supplies_iff.mp h).1
  rw [hn] at hstep
  cases hstep

theorem Supplies.of_end (h : m.Supplies fs s rows) (hn : m.next fs s = (.ok none, s')) :
    rows = [] ∧ m.Supplies fs s' [] := by
  cases rows with
  | nil =>
    obtain ⟨t, ht, hrest⟩ := supplies_nil_iff.mp h
    obtain ⟨-, rfl⟩ := Prod.mk.inj (hn.symm.trans ht)
    exact ⟨rfl, hrest⟩
  | cons row rows =>
    obtain ⟨t, ht, -⟩ := supplies_cons_iff.mp h
    cases hn.symm.trans ht

theorem Supplies.of_row (h : m.Supplies fs s rows) (hn : m.next fs s = (.ok (some row), s')) :
    ∃ rest, rows = row :: rest ∧ m.Supplies fs s' rest := by
  cases rows with
  | nil =>
    obtain ⟨t, ht, -⟩ := supplies_nil_iff.mp h
    cases hn.symm.trans ht
  | cons row' rest =>
    obtain ⟨t, ht, hrest⟩ := supplies_cons_iff.mp h
    cases hn.symm.trans ht
    exact ⟨rest, rfl, hrest⟩

theorem Reaches.of_next {t : σ} (h : m.Reaches fs s t) {outcome : Except Error (Option Row)}
    (hn : m.next fs t = (outcome, s')) : m.Reaches fs s s' := by
  have hstep := h.next
  rwa [hn] at hstep

theorem Reaches.of_reset {t : σ} (h : m.Reaches fs s t) {outcome : Except Error Unit}
    (hn : m.reset fs t = (outcome, s')) : m.Reaches fs s s' := by
  have hstep := h.reset
  rwa [hn] at hstep

/-- A machine that has come to an end, and comes to it again from where the call leaves it, has
nothing more to hand out. -/
theorem supplies_nil_of_kept {I : σ → Prop}
    (hI : ∀ s, I s → ∃ s', m.next fs s = (.ok none, s') ∧ I s') (hs : I s) :
    m.Supplies fs s [] := by
  intro n
  induction n generalizing s with
  | zero =>
    obtain ⟨s', hn, -⟩ := hI s hs
    simp [answer, after, hn]
  | succ n ih =>
    obtain ⟨s', hn, hs'⟩ := hI s hs
    have hrest := ih hs'
    simpa [answer, after, hn] using hrest

/-! ### Draining -/

theorem drain_eq_step (m : Machine σ) (fs : Files) (s : σ) : m.drain fs s =
    match m.next fs s with
    | (.error e, s') => ([], some e, s')
    | (.ok none, s') => ([], none, s')
    | (.ok (some row), s') =>
      (row :: (m.drain fs s').1, (m.drain fs s').2.1, (m.drain fs s').2.2) := by
  rw [drain]
  split <;> simp [*]

/-- Supplying a list is draining to it without an error, with nothing more to come. -/
theorem supplies_iff_drain : m.Supplies fs s rows ↔
    ∃ s', m.drain fs s = (rows, none, s') ∧ m.Supplies fs s' [] := by
  induction rows generalizing s with
  | nil =>
    constructor
    · intro h
      obtain ⟨s', hn, hs'⟩ := supplies_nil_iff.mp h
      exact ⟨s', by rw [drain_eq_step, hn], hs'⟩
    · rintro ⟨s', hd, hs'⟩
      rw [drain_eq_step] at hd
      rcases hn : m.next fs s with ⟨e | _ | row, t⟩
      · simp [hn] at hd
      · simp only [hn, Prod.mk.injEq, true_and] at hd
        exact supplies_nil_iff.mpr ⟨t, hn, hd ▸ hs'⟩
      · simp [hn] at hd
  | cons row rows ih =>
    constructor
    · intro h
      obtain ⟨t, hn, ht⟩ := supplies_cons_iff.mp h
      obtain ⟨s', hd, hs'⟩ := ih.mp ht
      exact ⟨s', by simp only [drain_eq_step m fs s, hn, hd], hs'⟩
    · rintro ⟨s', hd, hs'⟩
      rw [drain_eq_step] at hd
      rcases hn : m.next fs s with ⟨e | _ | row', t⟩
      · simp [hn] at hd
      · simp [hn] at hd
      · simp only [hn, Prod.mk.injEq, List.cons.injEq] at hd
        obtain ⟨⟨rfl, hrows⟩, herror, hstate⟩ := hd
        have ht : m.drain fs t = (rows, none, s') := by rw [← hrows, ← herror, ← hstate]
        exact supplies_cons_iff.mpr ⟨t, hn, ih.mpr ⟨s', ht, hs'⟩⟩

theorem Supplies.yield (h : m.Supplies fs s rows) : m.yield fs s = .ofList rows := by
  obtain ⟨s', hd, -⟩ := supplies_iff_drain.mp h
  simp only [Machine.yield, hd]
  rfl

theorem drain_map {n : Machine ρ} {f : ρ → σ}
    (h : ∀ t, m.next fs (f t) = ((n.next fs t).1, f (n.next fs t).2)) (t : ρ) :
    m.drain fs (f t) = ((n.drain fs t).1, (n.drain fs t).2.1, f (n.drain fs t).2.2) := by
  fun_induction n.drain fs t with
  | case1 t e t' hn => rw [drain_eq_step, h, hn]
  | case2 t t' hn => rw [drain_eq_step, h, hn]
  | case3 t row t' hn rows e t'' hd ih =>
    rw [drain_eq_step, h, hn]
    simp only [ih, hd]

/-! ### Lists and gatherings -/

theorem supplies_listed (rows : List Row) (fs : Files) (s : List Row) :
    (listed rows).Supplies fs s s := by
  induction s with
  | nil =>
    refine supplies_nil_of_kept (I := fun s => s = []) ?_ rfl
    rintro s rfl
    exact ⟨[], rfl, rfl⟩
  | cons row rest ih => exact supplies_cons_iff.mpr ⟨rest, rfl, ih⟩

theorem repeats_listed (rows : List Row) (fs : Files) (s : List Row) :
    (listed rows).Repeats fs s rows :=
  fun _ _ => ⟨rows, rfl, supplies_listed rows fs rows⟩

variable {g : Gathering} {x : σ} {out : List Row} {e : Error}

theorem supplies_ready (m : Machine σ) (g : Gathering) (fs : Files) (x : σ) (rest : List Row) :
    (gathered m g).Supplies fs ⟨x, .ready rest⟩ rest := by
  induction rest with
  | nil =>
    refine supplies_nil_of_kept (I := fun s => s = ⟨x, .ready []⟩) ?_ rfl
    rintro s rfl
    exact ⟨_, rfl, rfl⟩
  | cons row rest ih => exact supplies_cons_iff.mpr ⟨_, rfl, ih⟩

/-- The first call to a gathering machine: it fails if the gathering does, and else leaves a machine
that supplies what has been gathered but for the first row. -/
theorem next_pending (m : Machine σ) (g : Gathering) (fs : Files) (x : σ) :
    (∃ e, gatheredRows g (m.yield fs x) = .error e ∧
      ((gathered m g).next fs ⟨x, .pending⟩).1 = .error e) ∨
    ∃ rows, gatheredRows g (m.yield fs x) = .ok rows ∧
      (gathered m g).Supplies fs ⟨x, .pending⟩ rows := by
  have hgather := gather_eq m g fs x
  rcases hg : gather m g fs x with ⟨e | rows, x'⟩
  · left
    refine ⟨e, by rw [← hgather, hg], ?_⟩
    simp only [gathered, nextGathered, hg]
  · right
    refine ⟨rows, by rw [← hgather, hg], supplies_iff.mpr ?_⟩
    have hready := supplies_iff.mp (supplies_ready m g fs x' rows)
    simpa only [gathered, nextGathered, hg] using hready

theorem supplies_gathered_iff (h : m.yield fs x = .ofList rows) :
    (gathered m g).Supplies fs ⟨x, .pending⟩ out ↔ gatheredRows g (.ofList rows) = .ok out := by
  rw [← h]
  rcases next_pending m g fs x with ⟨e, hrows, hnext⟩ | ⟨out', hrows, hsupplies⟩
  · rw [hrows, supplies_iff, hnext]
    simp
  · rw [hrows]
    constructor
    · intro hout
      have hsame := hsupplies.yield.symm.trans hout.yield
      exact congrArg (fun y => Except.ok y.rows) hsame
    · intro hout
      exact Except.ok.inj hout ▸ hsupplies

theorem refuses_gathered_iff (h : m.yield fs x = .ofList rows) :
    ((gathered m g).next fs ⟨x, .pending⟩).1 = .error e ↔
      gatheredRows g (.ofList rows) = .error e := by
  rw [← h]
  rcases next_pending m g fs x with ⟨e', hrows, hnext⟩ | ⟨out, hrows, hsupplies⟩
  · rw [hrows, hnext]
    simp
  · rw [hrows, (supplies_iff.mp hsupplies).1]
    simp

end Machine

end FlatQuery.Rows
