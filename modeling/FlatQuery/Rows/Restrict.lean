import FlatQuery.Rows.Machine
import FlatQuery.Rows.Evaluate

/-!
Machines that let some rows pass, and machines that keep some fields of each row.
-/

namespace FlatQuery.Rows

variable {σ : Type}

/-! ### Selection -/

/-- The next row that passes a condition. -/
def nextPassing (m : Machine σ) (condition : Option Term) (fs : Files) (s : σ) :
    Except Error (Option Row) × σ :=
  match _h : m.next fs s with
  | (.error e, s') => (.error e, s')
  | (.ok none, s') => (.ok none, s')
  | (.ok (some row), s') =>
    match Term.passes condition row with
    | .error e => (.error e, s')
    | .ok true => (.ok (some row), s')
    | .ok false => nextPassing m condition fs s'
  termination_by m.size fs s
  decreasing_by exact m.size_next _ _ _ _ (by assumption)

/-- Hands out the rows of `m` that pass a condition. -/
def filtered (m : Machine σ) (condition : Option Term) : Machine σ where
  next := nextPassing m condition
  reset := m.reset
  size := m.size
  full := m.full
  size_next := by
    intro fs s row s' h
    fun_induction nextPassing m condition fs s with
    | case1 s e t hn => simp at h
    | case2 s t hn => simp at h
    | case3 s r t hn e he => simp at h
    | case4 s r t hn ht =>
      simp only [Prod.mk.injEq] at h
      rw [← h.2]
      exact m.size_next _ _ _ _ hn
    | case5 s r t hn hf ih => exact Nat.lt_trans (ih h) (m.size_next _ _ _ _ hn)
  size_reset := m.size_reset

/-! ### Projection -/

/-- Hands out the fields at `indexes` of every row of `m`. -/
def projected (m : Machine σ) (indexes : List Nat) : Machine σ where
  next fs s :=
    match m.next fs s with
    | (.error e, s') => (.error e, s')
    | (.ok none, s') => (.ok none, s')
    | (.ok (some row), s') =>
      match row.pick indexes with
      | .error e => (.error e, s')
      | .ok picked => (.ok (some picked), s')
  reset := m.reset
  size := m.size
  full := m.full
  size_next := by
    intro fs s row s' h
    split at h
    · simp at h
    · simp at h
    · rename_i r t hn
      split at h
      · simp at h
      · simp only [Prod.mk.injEq] at h
        rw [← h.2]
        exact m.size_next _ _ _ _ hn
  size_reset := m.size_reset

end FlatQuery.Rows
