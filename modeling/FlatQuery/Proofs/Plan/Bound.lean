import FlatQuery.Proofs.Rows.Denotation
import FlatQuery.Plan.Instantiate

/-!
# Plans and their operators

Setting up a plan binds its columns and opens its data files.  The two do not depend on each other:
binding alone gives the operators (`Plan.bound`), and a plan can be set up exactly if it can be
bound and its operators can start (`bound_of_instantiate`, `instantiate_of_bound`).
-/

namespace FlatQuery.Plan

open Rows Outcome

/-- The operators of a plan, if its columns can be bound. -/
def bound : Plan → Except Rows.Error Operator
  | .scan t => .ok (.scan t)
  | .select input t on => do
    return .filter (← input.bound) (← (Scope.ofTable t).bind? (some on))
  | .join left right on => do
    return .join (← left.bound) (← right.bound)
      (← (Scope.ofTables (left.tables ++ right.tables)).bind? on)
  | .filter input on => do
    return .filter (← input.bound) (← (Scope.ofTables input.tables).bind? (some on))
  | .groupSum input groupBy shown sums _ => do
    let scope := Scope.ofTables input.tables
    let op ← input.bound
    let group ← groupBy.mapM scope.resolve
    let shown ← shown.mapM scope.resolve
    let sums ← sums.mapM scope.bind
    return .groupSum op { group, shown, sums }
  | .project input columns => do
    return .project (← input.bound) (← columns.mapM (Scope.ofTables input.tables).resolve)
      (columns.map (·.label))
  | .distinct input => do return .distinct (← input.bound)
  | .sort input keys => do return .sort (← input.bound) (keys.map sortKey)

variable {fs : Files}

theorem exists_bound_project_iff {p : Plan} {columns : List ColumnRef} :
    (∃ op, (project p columns).bound = .ok op) ↔ (∃ op, p.bound = .ok op) ∧
      ∀ c ∈ columns, ∃ i, (Scope.ofTables p.tables).resolve c = .ok i := by
  rw [bound, exists_bind_iff fun _ => exists_bind_pure_iff, exists_mapM_iff]

theorem exists_bound_groupSum_iff {p : Plan} {keys columns : List ColumnRef} {sums : List Expr}
    {labels : List String} :
    (∃ op, (groupSum p keys columns sums labels).bound = .ok op) ↔ (∃ op, p.bound = .ok op) ∧
      (∀ c ∈ keys, ∃ i, (Scope.ofTables p.tables).resolve c = .ok i) ∧
      (∀ c ∈ columns, ∃ i, (Scope.ofTables p.tables).resolve c = .ok i) ∧
      ∀ e ∈ sums, ∃ t, (Scope.ofTables p.tables).bind e = .ok t := by
  rw [bound, exists_bind_iff fun _ => exists_bind_iff fun _ => exists_bind_iff fun _ =>
    exists_bind_pure_iff, exists_mapM_iff, exists_mapM_iff, exists_mapM_iff]

theorem exists_bound_distinct_iff {p : Plan} :
    (∃ op, (distinct p).bound = .ok op) ↔ ∃ op, p.bound = .ok op := by
  rw [bound, exists_bind_pure_iff]

theorem exists_bound_sort_iff {p : Plan} {keys : List OrderKey} :
    (∃ op, (sort p keys).bound = .ok op) ↔ ∃ op, p.bound = .ok op := by
  rw [bound, exists_bind_pure_iff]

/-- A plan that has been set up has been bound, and stands before its first row. -/
theorem bound_of_instantiate {p : Plan} {c : Cursor} (h : p.instantiate fs = .ok c) :
    p.bound = .ok c.op ∧ c.op.start? fs = .ok c.state := by
  -- by the nodes of the plan: what sets a node up binds its columns and starts its operator
  induction p generalizing c with
  | scan t =>
    obtain ⟨s, ho, h⟩ := bind_eq_ok_iff.mp h
    cases h
    exact ⟨rfl, ho⟩
  | select input t on ih =>
    obtain ⟨d, hd, h⟩ := bind_eq_ok_iff.mp h
    obtain ⟨on', hon, h⟩ := bind_eq_ok_iff.mp h
    cases h
    obtain ⟨hb, hs⟩ := ih hd
    refine ⟨?_, hs⟩
    simp only [bound, hb, hon, ok_bind, pure_eq_ok]
  | join l r on ihl ihr =>
    obtain ⟨d, hd, h⟩ := bind_eq_ok_iff.mp h
    obtain ⟨d', hd', h⟩ := bind_eq_ok_iff.mp h
    obtain ⟨on', hon, h⟩ := bind_eq_ok_iff.mp h
    cases h
    obtain ⟨hb, hs⟩ := ihl hd
    obtain ⟨hb', hs'⟩ := ihr hd'
    refine ⟨?_, ?_⟩
    · simp only [bound, hb, hb', hon, ok_bind, pure_eq_ok]
    · exact bind_eq_ok_iff.mpr ⟨_, hs, bind_eq_ok_iff.mpr ⟨_, hs', rfl⟩⟩
  | filter input on ih =>
    obtain ⟨d, hd, h⟩ := bind_eq_ok_iff.mp h
    obtain ⟨on', hon, h⟩ := bind_eq_ok_iff.mp h
    cases h
    obtain ⟨hb, hs⟩ := ih hd
    refine ⟨?_, hs⟩
    simp only [bound, hb, hon, ok_bind, pure_eq_ok]
  | groupSum input groupBy shown sums labels ih =>
    obtain ⟨d, hd, h⟩ := bind_eq_ok_iff.mp h
    obtain ⟨g, hg, h⟩ := bind_eq_ok_iff.mp h
    obtain ⟨w, hw, h⟩ := bind_eq_ok_iff.mp h
    obtain ⟨u, hu, h⟩ := bind_eq_ok_iff.mp h
    cases h
    obtain ⟨hb, hs⟩ := ih hd
    refine ⟨?_, bind_eq_ok_iff.mpr ⟨_, hs, rfl⟩⟩
    simp only [bound, hb, hg, hw, hu, ok_bind, pure_eq_ok]
  | project input columns ih =>
    obtain ⟨d, hd, h⟩ := bind_eq_ok_iff.mp h
    obtain ⟨indexes, hi, h⟩ := bind_eq_ok_iff.mp h
    cases h
    obtain ⟨hb, hs⟩ := ih hd
    refine ⟨?_, hs⟩
    simp only [bound, hb, hi, ok_bind, pure_eq_ok]
  | distinct input ih =>
    obtain ⟨d, hd, h⟩ := bind_eq_ok_iff.mp h
    cases h
    obtain ⟨hb, hs⟩ := ih hd
    refine ⟨?_, bind_eq_ok_iff.mpr ⟨_, hs, rfl⟩⟩
    simp only [bound, hb, ok_bind, pure_eq_ok]
    rfl
  | sort input keys ih =>
    obtain ⟨d, hd, h⟩ := bind_eq_ok_iff.mp h
    cases h
    obtain ⟨hb, hs⟩ := ih hd
    refine ⟨?_, bind_eq_ok_iff.mpr ⟨_, hs, rfl⟩⟩
    simp only [bound, hb, ok_bind, pure_eq_ok]
    rfl

/-- A plan that has been bound is set up as soon as its operators can start. -/
theorem instantiate_of_bound {p : Plan} {op : Operator} {s : op.State} (hb : p.bound = .ok op)
    (hs : op.start? fs = .ok s) : p.instantiate fs = .ok ⟨op, s⟩ := by
  induction p generalizing op with
  | scan t =>
    cases hb
    exact bind_eq_ok_iff.mpr ⟨s, hs, rfl⟩
  | select input t on ih =>
    obtain ⟨i, hi, hb⟩ := bind_eq_ok_iff.mp hb
    obtain ⟨on', hon, hb⟩ := bind_eq_ok_iff.mp hb
    cases hb
    simp only [instantiate, ih hi hs, ok_bind, Cursor.filter, hon, pure_eq_ok]
  | join l r on ihl ihr =>
    obtain ⟨i, hi, hb⟩ := bind_eq_ok_iff.mp hb
    obtain ⟨j, hj, hb⟩ := bind_eq_ok_iff.mp hb
    obtain ⟨on', hon, hb⟩ := bind_eq_ok_iff.mp hb
    cases hb
    obtain ⟨x, hx, hs⟩ := bind_eq_ok_iff.mp hs
    obtain ⟨y, hy, hs⟩ := bind_eq_ok_iff.mp hs
    cases hs
    simp only [instantiate, ihl hi hx, ihr hj hy, ok_bind, Cursor.join, hon, pure_eq_ok]
  | filter input on ih =>
    obtain ⟨i, hi, hb⟩ := bind_eq_ok_iff.mp hb
    obtain ⟨on', hon, hb⟩ := bind_eq_ok_iff.mp hb
    cases hb
    simp only [instantiate, ih hi hs, ok_bind, Cursor.filter, hon, pure_eq_ok]
  | groupSum input groupBy shown sums labels ih =>
    obtain ⟨i, hi, hb⟩ := bind_eq_ok_iff.mp hb
    obtain ⟨g, hg, hb⟩ := bind_eq_ok_iff.mp hb
    obtain ⟨w, hw, hb⟩ := bind_eq_ok_iff.mp hb
    obtain ⟨u, hu, hb⟩ := bind_eq_ok_iff.mp hb
    cases hb
    obtain ⟨x, hx, hs⟩ := bind_eq_ok_iff.mp hs
    cases hs
    simp only [instantiate, ih hi hx, ok_bind, Cursor.groupSum, hg, hw, hu, pure_eq_ok]
  | project input columns ih =>
    obtain ⟨i, hi, hb⟩ := bind_eq_ok_iff.mp hb
    obtain ⟨indexes, hx, hb⟩ := bind_eq_ok_iff.mp hb
    cases hb
    simp only [instantiate, ih hi hs, ok_bind, Cursor.project, hx, pure_eq_ok]
  | distinct input ih =>
    obtain ⟨i, hi, hb⟩ := bind_eq_ok_iff.mp hb
    cases hb
    obtain ⟨x, hx, hs⟩ := bind_eq_ok_iff.mp hs
    cases hs
    simp only [instantiate, ih hi hx, ok_bind, pure_eq_ok]
    rfl
  | sort input keys ih =>
    obtain ⟨i, hi, hb⟩ := bind_eq_ok_iff.mp hb
    cases hb
    obtain ⟨x, hx, hs⟩ := bind_eq_ok_iff.mp hs
    cases hs
    simp only [instantiate, ih hi hx, ok_bind, pure_eq_ok]
    rfl

end FlatQuery.Plan
