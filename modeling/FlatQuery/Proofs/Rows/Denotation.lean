import FlatQuery.Proofs.Rows.Machines
import FlatQuery.Proofs.Rows.Start

/-!
# What a tree of operators hands out

The yield of a tree follows its shape (`Operator.yield`), with no states in it: a join asks for the
right rows afresh for each left row, and gets the same each time because its right side can start
over.  A tree that stands before its first row hands out exactly that (`yield_of_start`).
-/

namespace FlatQuery.Rows

/-- The rows that the data file of a table holds. -/
def tableRows (fs : Files) (t : Table) : Yield :=
  match openTable fs t with
  | .error e => .fail e
  | .ok h => handleRows t.dataFile.text fs h

theorem opens_of_tableRows {fs : Files} {t : Table} (h : (tableRows fs t).error = none) :
    ∃ s, openTable fs t = .ok s := by
  unfold tableRows at h
  split at h
  · cases h
  · exact ⟨_, ‹_›⟩

namespace Operator

/-- What an operator hands out, from its first row to its end. -/
def yield (fs : Files) : Operator → Yield
  | listed rows => .ofList rows
  | scan t => tableRows fs t
  | filter input on => (input.yield fs).bind (tested on)
  | project input indexes _ => (input.yield fs).bind (picked indexes)
  | join left right on =>
    (left.yield fs).bind fun a => (right.yield fs).bind fun b => tested on (a.append b)
  | sort input keys => .ofRows (gatheredRows (sorting keys) (input.yield fs))
  | groupSum input spec => .ofRows (gatheredRows (grouping spec) (input.yield fs))
  | distinct input => .ofRows (gatheredRows deduplicating (input.yield fs))

variable {fs : Files}

theorem yield_of_start (op : Operator) {s : op.State} (h : op.start? fs = .ok s) :
    op.machine.yield fs s = op.yield fs := by
  induction op with
  | listed rows => cases h; exact yield_listed rows fs rows
  | scan t =>
    have ho : openTable fs t = .ok s := h
    refine (yield_scanned t fs s).trans ?_
    simp only [yield, tableRows, ho]
  | filter input on ih =>
    refine (yield_filtered input.machine on fs s).trans ?_
    rw [ih h]
    rfl
  | project input indexes labels ih =>
    refine (yield_projected input.machine indexes fs s).trans ?_
    rw [ih h]
    rfl
  | join l r on ihl ihr =>
    obtain ⟨x, hx, h⟩ := Outcome.bind_eq_ok_iff.mp h
    obtain ⟨y, hy, h⟩ := Outcome.bind_eq_ok_iff.mp h
    cases h
    -- the right side hands out the same rows after each reset, wherever it was left
    have hr : ∀ z, ∃ z', r.machine.reset fs z = (.ok (), z') ∧ r.machine.yield fs z' = r.yield fs :=
      fun z => ⟨y, reset_of_start r hy z, ihr hy⟩
    refine (yield_joined hr on x y).trans ?_
    rw [ihl hx]
    rfl
  | sort input keys ih =>
    obtain ⟨x, hx, h⟩ := Outcome.bind_eq_ok_iff.mp h
    cases h
    refine (yield_gathered input.machine (sorting keys) fs x).trans ?_
    rw [ih hx]
    rfl
  | groupSum input spec ih =>
    obtain ⟨x, hx, h⟩ := Outcome.bind_eq_ok_iff.mp h
    cases h
    refine (yield_gathered input.machine (grouping spec) fs x).trans ?_
    rw [ih hx]
    rfl
  | distinct input ih =>
    obtain ⟨x, hx, h⟩ := Outcome.bind_eq_ok_iff.mp h
    cases h
    refine (yield_gathered input.machine deduplicating fs x).trans ?_
    rw [ih hx]
    rfl

/-- An operator can start if the data files of its tables can be opened. -/
theorem exists_start (op : Operator) (h : ∀ t ∈ op.tables, ∃ s, openTable fs t = .ok s) :
    ∃ s, op.start? fs = .ok s := by
  induction op with
  | listed rows => exact ⟨rows, rfl⟩
  | scan t => exact h t (List.mem_singleton_self t)
  | filter input on ih => exact ih h
  | project input indexes labels ih => exact ih h
  | join l r on ihl ihr =>
    obtain ⟨x, hx⟩ := ihl fun t ht => h t (List.mem_append_left _ ht)
    obtain ⟨y, hy⟩ := ihr fun t ht => h t (List.mem_append_right _ ht)
    exact ⟨_, Outcome.bind_eq_ok_iff.mpr ⟨x, hx, Outcome.bind_eq_ok_iff.mpr ⟨y, hy, rfl⟩⟩⟩
  | sort input keys ih =>
    obtain ⟨x, hx⟩ := ih h
    exact ⟨_, Outcome.bind_eq_ok_iff.mpr ⟨x, hx, rfl⟩⟩
  | groupSum input spec ih =>
    obtain ⟨x, hx⟩ := ih h
    exact ⟨_, Outcome.bind_eq_ok_iff.mpr ⟨x, hx, rfl⟩⟩
  | distinct input ih =>
    obtain ⟨x, hx⟩ := ih h
    exact ⟨_, Outcome.bind_eq_ok_iff.mpr ⟨x, hx, rfl⟩⟩

/-- If an operator can start, the data files of its tables can be opened. -/
theorem opens_of_start (op : Operator) {s : op.State} (h : op.start? fs = .ok s) :
    ∀ t ∈ op.tables, ∃ h, openTable fs t = .ok h := by
  induction op with
  | listed rows => exact fun t ht => nomatch ht
  | scan t => exact List.forall_mem_singleton.mpr ⟨s, h⟩
  | filter input on ih => exact ih h
  | project input indexes labels ih => exact ih h
  | join l r on ihl ihr =>
    obtain ⟨x, hx, h⟩ := Outcome.bind_eq_ok_iff.mp h
    obtain ⟨y, hy, -⟩ := Outcome.bind_eq_ok_iff.mp h
    exact List.forall_mem_append.mpr ⟨ihl hx, ihr hy⟩
  | sort input keys ih =>
    obtain ⟨x, hx, -⟩ := Outcome.bind_eq_ok_iff.mp h
    exact ih hx
  | groupSum input spec ih =>
    obtain ⟨x, hx, -⟩ := Outcome.bind_eq_ok_iff.mp h
    exact ih hx
  | distinct input ih =>
    obtain ⟨x, hx, -⟩ := Outcome.bind_eq_ok_iff.mp h
    exact ih hx

end Operator

/-- A cursor that stands before its first row drains to what its operators hand out. -/
theorem Cursor.drain_of_start {fs : Files} {c : Cursor} (h : c.op.start? fs = .ok c.state) :
    (⟨(c.drain fs).1, (c.drain fs).2.1⟩ : Yield) = c.op.yield fs :=
  Operator.yield_of_start c.op h

end FlatQuery.Rows
