import FlatQuery.Rows.Gather

/-!
Duplicate elimination: the first of equal rows stays.
-/

namespace FlatQuery.Rows

/-- Adds a row in front of those seen, unless it is among them. -/
def addNew (seen : List Row) (row : Row) : List Row :=
  if row ∈ seen then seen else row :: seen

/-- Gathers the rows that differ from all rows before them. -/
def deduplicating : Gathering where
  Acc := List Row
  start := []
  step seen row := .ok (addNew seen row)
  finish seen := .ok seen.reverse
  count := List.length
  count_start := by simp
  count_step := by
    intro a row b h
    simp only [Except.ok.injEq] at h
    subst h
    unfold addNew
    split <;> simp
  length_finish := by
    intro a rows h
    simp at h
    simp [← h]

end FlatQuery.Rows
