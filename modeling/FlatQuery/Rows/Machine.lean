import FlatQuery.Rows.Row

/-!
Machines that hand out rows one at a time.  A machine is asked for its next row, or told to start
over; both may fail, and both leave a state behind from which it can go on.  Machines read files
but never change them.

Every machine comes with a measure of what it still holds: a row handed out lowers it, and after a
start it is at most a bound that does not depend on the state.  So every machine runs dry, and
loops over its rows end.
-/

namespace FlatQuery.Rows

/-- A machine with states of type `σ`. -/
structure Machine (σ : Type) where
  /-- The next row, `none` at the end. -/
  next : Files → σ → Except Error (Option Row) × σ
  /-- Starts over. -/
  reset : Files → σ → Except Error Unit × σ
  /-- A bound on the rows still to come. -/
  size : Files → σ → Nat
  /-- A bound on the rows to come after starting over. -/
  full : Files → Nat
  size_next : ∀ fs s row s', next fs s = (.ok (some row), s') → size fs s' < size fs s
  size_reset : ∀ fs s s', reset fs s = (.ok (), s') → size fs s' ≤ full fs

namespace Machine

variable {σ α : Type}

/-- Runs a machine to its end and folds a step over its rows.  An error of the machine or of the
step stops the run where it is. -/
def fold (m : Machine σ) (fs : Files) (step : α → Row → Except Error α) (acc : α) (s : σ) :
    Except Error α × σ :=
  match _h : m.next fs s with
  | (.error e, s') => (.error e, s')
  | (.ok none, s') => (.ok acc, s')
  | (.ok (some row), s') =>
    match step acc row with
    | .error e => (.error e, s')
    | .ok acc' => m.fold fs step acc' s'
  termination_by m.size fs s
  decreasing_by exact m.size_next _ _ _ _ (by assumption)

/-- The rows up to the end or the first error, and that error. -/
def drain (m : Machine σ) (fs : Files) (s : σ) : List Row × Option Error × σ :=
  match _h : m.next fs s with
  | (.error e, s') => ([], some e, s')
  | (.ok none, s') => ([], none, s')
  | (.ok (some row), s') =>
    let (rows, e, s'') := m.drain fs s'
    (row :: rows, e, s'')
  termination_by m.size fs s
  decreasing_by exact m.size_next _ _ _ _ (by assumption)

/-- If each step raises a count by one at most, a fold raises it by the size of the machine at
most. -/
theorem count_fold_le (m : Machine σ) (fs : Files) (step : α → Row → Except Error α)
    (count : α → Nat) (count_step : ∀ a row b, step a row = .ok b → count b ≤ count a + 1)
    (acc b : α) (s s' : σ) (h : m.fold fs step acc s = (.ok b, s')) :
    count b ≤ count acc + m.size fs s := by
  fun_induction fold m fs step acc s with
  | case1 acc s e t hn => simp at h
  | case2 acc s t hn =>
    simp only [Prod.mk.injEq, Except.ok.injEq] at h
    rw [← h.1]
    exact Nat.le_add_right _ _
  | case3 acc s row t hn e he => simp at h
  | case4 acc s row t hn acc' ha ih =>
    have h1 := ih h
    have h2 := count_step acc row acc' ha
    have h3 := m.size_next fs s row t hn
    omega

end Machine

end FlatQuery.Rows
