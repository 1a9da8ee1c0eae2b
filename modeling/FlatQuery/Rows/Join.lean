import FlatQuery.Rows.Machine
import FlatQuery.Rows.Evaluate

/-!
The nested-loop join.  For every row of the left machine the right one starts over and runs to its
end; each pair of rows, put side by side, is handed out if it passes the condition.
-/

namespace FlatQuery.Rows

/-- The state of a join: the states of both sides, and the left row whose partners are being looked
for. -/
structure JoinState (σ τ : Type) where
  left : σ
  right : τ
  current : Option Row := none

namespace JoinState

variable {σ τ : Type}

/-- A bound on the pairs still to come. -/
def size (l : Machine σ) (r : Machine τ) (fs : Files) (s : JoinState σ τ) : Nat :=
  l.size fs s.left * (r.full fs + 1) + (if s.current.isSome then r.size fs s.right + 1 else 0)

end JoinState

variable {σ τ : Type}

theorem size_join_start {l : Machine σ} {r : Machine τ} {fs : Files} {x x' : σ} {y y' : τ}
    {row : Row} (hl : l.next fs x = (.ok (some row), x')) (hr : r.reset fs y = (.ok (), y')) :
    JoinState.size l r fs ⟨x', y', some row⟩ ≤ JoinState.size l r fs ⟨x, y, none⟩ := by
  have h1 := l.size_next _ _ _ _ hl
  have h2 := r.size_reset _ _ _ hr
  simp only [JoinState.size, Option.isSome_some, Option.isSome_none, if_true]
  have h3 : (l.size fs x' + 1) * (r.full fs + 1) ≤ l.size fs x * (r.full fs + 1) :=
    Nat.mul_le_mul_right _ h1
  rw [Nat.add_mul] at h3
  simp only [Bool.false_eq_true, if_false]
  omega

theorem size_join_row {l : Machine σ} {r : Machine τ} {fs : Files} {x : σ} {y y' : τ}
    {left row : Row} (hr : r.next fs y = (.ok (some row), y')) :
    JoinState.size l r fs ⟨x, y', some left⟩ < JoinState.size l r fs ⟨x, y, some left⟩ := by
  have h := r.size_next _ _ _ _ hr
  simp only [JoinState.size, Option.isSome_some, if_true]
  omega

theorem size_join_end {l : Machine σ} {r : Machine τ} {fs : Files} {x : σ} {y y' : τ}
    {left : Row} :
    JoinState.size l r fs ⟨x, y', none⟩ < JoinState.size l r fs ⟨x, y, some left⟩ := by
  simp only [JoinState.size, Option.isSome_some, Option.isSome_none, if_true, Bool.false_eq_true,
    if_false]
  omega

/-- The next pair that passes the condition.  A left row is given up when the right side ends or
fails. -/
def nextPair (l : Machine σ) (r : Machine τ) (condition : Option Term) (fs : Files)
    (s : JoinState σ τ) : Except Error (Option Row) × JoinState σ τ :=
  match _hs : s with
  | ⟨x, y, some left⟩ =>
    match _h : r.next fs y with
    | (.error e, y') => (.error e, ⟨x, y', none⟩)
    | (.ok none, y') => nextPair l r condition fs ⟨x, y', none⟩
    | (.ok (some right), y') =>
      match Term.passes condition (left.append right) with
      | .error e => (.error e, ⟨x, y', some left⟩)
      | .ok true => (.ok (some (left.append right)), ⟨x, y', some left⟩)
      | .ok false => nextPair l r condition fs ⟨x, y', some left⟩
  | ⟨x, y, none⟩ =>
    match _h : l.next fs x with
    | (.error e, x') => (.error e, ⟨x', y, none⟩)
    | (.ok none, x') => (.ok none, ⟨x', y, none⟩)
    | (.ok (some left), x') =>
      match _hr : r.reset fs y with
      | (.error e, y') => (.error e, ⟨x', y', none⟩)
      | (.ok (), y') => nextPair l r condition fs ⟨x', y', some left⟩
  termination_by (JoinState.size l r fs s, if s.current.isSome then 0 else 1)
  decreasing_by
  · exact Prod.Lex.left _ _ size_join_end
  · exact Prod.Lex.left _ _ (size_join_row (by assumption))
  · rcases Nat.lt_or_eq_of_le (size_join_start (by assumption) (by assumption)) with h | h
    · exact Prod.Lex.left _ _ h
    · rw [h]
      exact Prod.Lex.right _ (by simp)

/-- Hands out the pairs of rows of `l` and `r` that pass a condition. -/
def joined (l : Machine σ) (r : Machine τ) (condition : Option Term) : Machine (JoinState σ τ) where
  next := nextPair l r condition
  reset fs s :=
    match l.reset fs s.left with
    | (.error e, x) => (.error e, { s with left := x })
    | (.ok (), x) =>
      match r.reset fs s.right with
      | (.error e, y) => (.error e, { s with left := x, right := y })
      | (.ok (), y) => (.ok (), ⟨x, y, none⟩)
  size := JoinState.size l r
  full fs := l.full fs * (r.full fs + 1)
  size_next := by
    intro fs s row s' h
    fun_induction nextPair l r condition fs s with
    | case1 => simp at h
    | case2 x y left y' hn ih => exact Nat.lt_trans (ih h) size_join_end
    | case3 => simp at h
    | case4 x y left right y' hn hp =>
      simp only [Prod.mk.injEq] at h
      rw [← h.2]
      exact size_join_row hn
    | case5 x y left right y' hn hp ih => exact Nat.lt_trans (ih h) (size_join_row hn)
    | case6 => simp at h
    | case7 => simp at h
    | case8 => simp at h
    | case9 x y left x' hn y' hr ih => exact Nat.lt_of_lt_of_le (ih h) (size_join_start hn hr)
  size_reset := by
    intro fs s s' h
    split at h
    · simp at h
    · rename_i x hl
      split at h
      · simp at h
      · rename_i y hr
        simp only [Prod.mk.injEq, true_and] at h
        subst h
        simp only [JoinState.size, Option.isSome_none, Bool.false_eq_true, if_false, Nat.add_zero]
        exact Nat.mul_le_mul_right _ (l.size_reset _ _ _ hl)

end FlatQuery.Rows
