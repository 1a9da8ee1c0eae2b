import FlatQuery.Rows.Gather
import FlatQuery.Rows.Evaluate

/-!
Sorting by integer keys.  Rows whose keys all tie are ordered as text, so the order of the outcome
does not depend on the order of the input.
-/

namespace FlatQuery.Rows

/-- A sort key: a field, and the direction in which its integers go. -/
structure SortKey where
  index : Nat
  ascending : Bool := true
  deriving DecidableEq, Repr, Inhabited

namespace SortKey

/-- The integer of a row that the key looks at. -/
def value (k : SortKey) (row : Row) : Except Error Int := do
  Row.integer (← row.get k.index)

def compare (k : SortKey) (a b : Int) : Ordering :=
  if k.ascending then Ord.compare a b else Ord.compare b a

/-- Compares the integers of two rows, the first key that tells them apart deciding. -/
def compareAll : List SortKey → List Int → List Int → Ordering
  | k :: ks, a :: as, b :: bs => (k.compare a b).then (compareAll ks as bs)
  | _, _, _ => .eq

end SortKey

/-- A row with the integers that its sort keys look at. -/
structure KeyedRow where
  keys : List Int
  row : Row
  deriving DecidableEq, Repr

namespace KeyedRow

def ofRow (ks : List SortKey) (row : Row) : Except Error KeyedRow := do
  return { keys := ← ks.mapM (·.value row), row }

def compare (ks : List SortKey) (a b : KeyedRow) : Ordering :=
  (SortKey.compareAll ks a.keys b.keys).then (a.row.compare b.row)

end KeyedRow

def sortRows (ks : List SortKey) (rows : List Row) : Except Error (List Row) := do
  let keyed ← rows.mapM (KeyedRow.ofRow ks)
  return (keyed.mergeSort fun a b => KeyedRow.compare ks a b != .gt).map (·.row)

theorem length_mapM {α β ε : Type} {f : α → Except ε β} {xs : List α} {ys : List β}
    (h : xs.mapM f = .ok ys) : ys.length = xs.length := by
  induction xs generalizing ys with
  | nil =>
    simp [pure, Except.pure] at h
    simp [← h]
  | cons x xs ih =>
    cases hf : f x with
    | error e => simp [List.mapM_cons, hf, bind, Except.bind] at h
    | ok y =>
      cases hr : xs.mapM f with
      | error e => simp [List.mapM_cons, hf, hr, bind, Except.bind] at h
      | ok zs =>
        simp [List.mapM_cons, hf, hr, bind, Except.bind, pure, Except.pure] at h
        simp [← h, ih hr]

theorem length_sortRows {ks : List SortKey} {rows out : List Row} (h : sortRows ks rows = .ok out) :
    out.length = rows.length := by
  unfold sortRows at h
  cases hm : rows.mapM (KeyedRow.ofRow ks) with
  | error e => simp [hm, bind, Except.bind] at h
  | ok keyed =>
    simp [hm, bind, Except.bind, pure, Except.pure] at h
    simp [← h, List.length_mergeSort, length_mapM hm]

theorem length_sortRows_reverse {ks : List SortKey} (seen rows : List Row)
    (h : sortRows ks seen.reverse = .ok rows) : rows.length ≤ seen.length :=
  Nat.le_of_eq ((length_sortRows h).trans List.length_reverse)

def sorting (ks : List SortKey) : Gathering where
  Acc := List Row
  start := []
  step seen row := .ok (row :: seen)
  finish seen := sortRows ks seen.reverse
  count := List.length
  count_start := Nat.zero_le 1
  count_step _ _ _ h := Except.ok.inj h ▸ Nat.le_refl _
  length_finish := length_sortRows_reverse

end FlatQuery.Rows
