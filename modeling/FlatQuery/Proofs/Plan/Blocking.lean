import FlatQuery.Proofs.Plan.Prepared
import FlatQuery.Proofs.Rows.Written

/-!
# Queries that read everything first

A query with DISTINCT, ORDER BY, GROUP BY or an aggregate is planned with a gathering operator on
top (`blocks_of_ofSelect`).  Such an operator has nothing to hand out until it has read all its
input, and what it hands out then it hands out of memory.  So it gives all rows or fails without
one (`Operator.isWhole_yield`), and past its first answer it never fails
(`Operator.next_of_ready`).
-/

namespace FlatQuery.Rows

/-! ### Gathering operators -/

/-- That rows are handed out without an error at the end, or not at all. -/
def Yield.IsWhole (y : Yield) : Prop :=
  y.error = none ∨ y.rows = []

theorem Yield.isWhole_ofRows (outcome : Except Error (List Row)) : (ofRows outcome).IsWhole := by
  cases outcome with
  | error e => exact .inr rfl
  | ok rows => exact .inl rfl

/-- A machine that has gathered its rows hands them out whatever the files hold. -/
theorem next_gathered_of_ready {σ : Type} (m : Machine σ) (g : Gathering) (fs : Files) (x : σ)
    (rest : List Row) : ∃ row rest',
      (gathered m g).next fs ⟨x, .ready rest⟩ = (.ok row, ⟨x, .ready rest'⟩) := by
  cases rest with
  | nil => exact ⟨none, [], rfl⟩
  | cons row rest => exact ⟨some row, rest, rfl⟩

/-- The first answer of a gathering machine, unless it is an error, comes when all is gathered. -/
theorem ready_of_next_gathered {σ : Type} {m : Machine σ} {g : Gathering} {fs : Files} {x : σ}
    {row : Option Row} {s : GatherState σ}
    (h : (gathered m g).next fs ⟨x, .pending⟩ = (.ok row, s)) : ∃ rest, s.output = .ready rest := by
  have hnext : nextGathered m g fs ⟨x, .pending⟩ = (.ok row, s) := h
  simp only [nextGathered] at hnext
  split at hnext
  · cases hnext
  · rename_i rows input _
    cases hnext
    cases rows with
    | nil => exact ⟨[], rfl⟩
    | cons row rest => exact ⟨rest, rfl⟩

namespace Operator

variable {fs : Files}

/-- What a gathering operator has gathered; nothing for the other operators. -/
def gathered? : (op : Operator) → op.State → Option Gathered
  | sort _ _, s => some (GatherState.output s)
  | groupSum _ _, s => some (GatherState.output s)
  | distinct _, s => some (GatherState.output s)
  | _, _ => none

/-- Whether an operator reads all its input before it hands out a row. -/
def gathers : Operator → Bool
  | sort _ _ => true
  | groupSum _ _ => true
  | distinct _ => true
  | _ => false

theorem pending_of_start {op : Operator} (hop : op.gathers = true) {s : op.State}
    (hs : op.start? fs = .ok s) : op.gathered? s = some .pending := by
  cases op with
  | sort input keys =>
    obtain ⟨x, -, hs⟩ := Outcome.bind_eq_ok_iff.mp hs
    cases hs
    rfl
  | groupSum input spec =>
    obtain ⟨x, -, hs⟩ := Outcome.bind_eq_ok_iff.mp hs
    cases hs
    rfl
  | distinct input =>
    obtain ⟨x, -, hs⟩ := Outcome.bind_eq_ok_iff.mp hs
    cases hs
    rfl
  | _ => cases hop

/-- Before its first row a gathering operator has all of its rows to hand out, or none. -/
theorem isWhole_yield {op : Operator} {s : op.State} (hs : op.gathered? s = some .pending) :
    (op.machine.yield fs s).IsWhole := by
  have hwhole : ∀ {σ : Type} (m : Machine σ) (g : Gathering) (t : GatherState σ),
      t.output = .pending → ((gathered m g).yield fs t).IsWhole := by
    rintro σ m g ⟨x, output⟩ rfl
    rw [yield_gathered]
    exact Yield.isWhole_ofRows _
  cases op with
  | sort input keys => exact hwhole input.machine (sorting keys) s (Option.some.inj hs)
  | groupSum input spec => exact hwhole input.machine (grouping spec) s (Option.some.inj hs)
  | distinct input => exact hwhole input.machine deduplicating s (Option.some.inj hs)
  | _ => cases hs

/-- The first answer of a gathering operator, unless it is an error, leaves it with its rows in
memory. -/
theorem ready_of_next {op : Operator} {s s' : op.State} {row : Option Row}
    (hs : op.gathered? s = some .pending) (h : op.machine.next fs s = (.ok row, s')) :
    ∃ rest, op.gathered? s' = some (.ready rest) := by
  have hready : ∀ {σ : Type} (m : Machine σ) (g : Gathering) (t t' : GatherState σ),
      t.output = .pending → (gathered m g).next fs t = (.ok row, t') →
        ∃ rest, some t'.output = some (.ready rest) := by
    rintro σ m g ⟨x, output⟩ t' rfl ht
    obtain ⟨rest, hrest⟩ := ready_of_next_gathered ht
    exact ⟨rest, congrArg some hrest⟩
  cases op with
  | sort input keys => exact hready input.machine (sorting keys) s s' (Option.some.inj hs) h
  | groupSum input spec => exact hready input.machine (grouping spec) s s' (Option.some.inj hs) h
  | distinct input => exact hready input.machine deduplicating s s' (Option.some.inj hs) h
  | _ => cases hs

/-- With its rows in memory a gathering operator answers without fail, and keeps the rest of
them. -/
theorem next_of_ready (fs : Files) {op : Operator} {s : op.State} {rest : List Row}
    (hs : op.gathered? s = some (.ready rest)) :
    ∃ row s' rest', op.machine.next fs s = (.ok row, s') ∧
      op.gathered? s' = some (.ready rest') := by
  have hnext : ∀ {σ : Type} (m : Machine σ) (g : Gathering) (t : GatherState σ),
      t.output = .ready rest → ∃ row t' rest', (gathered m g).next fs t = (.ok row, t') ∧
        some t'.output = some (.ready rest') := by
    rintro σ m g ⟨x, output⟩ rfl
    obtain ⟨row, rest', h⟩ := next_gathered_of_ready m g fs x rest
    exact ⟨row, _, rest', h, rfl⟩
  cases op with
  | sort input keys => exact hnext input.machine (sorting keys) s (Option.some.inj hs)
  | groupSum input spec => exact hnext input.machine (grouping spec) s (Option.some.inj hs)
  | distinct input => exact hnext input.machine deduplicating s (Option.some.inj hs)
  | _ => cases hs

end Operator

namespace Cursor

/-- With its rows in memory a cursor answers every call for a row, whatever the files hold at that
time. -/
theorem run_of_ready {c : Cursor} {rest : List Row}
    (hc : c.op.gathered? c.state = some (.ready rest)) (later : List Files) :
    ∀ r ∈ (c.run (later.map fun fs => (fs, .next))).1, ∃ row, r = .row (.ok row) := by
  induction later generalizing c rest with
  | nil => exact fun r hr => nomatch hr
  | cons fs later ih =>
    obtain ⟨row, s, rest', hnext, hready⟩ := Operator.next_of_ready fs hc
    have hreply : c.reply fs .next = (.row (.ok row), ⟨c.op, s⟩) := by
      simp only [reply, next, hnext]
    rw [List.map_cons, run, hreply]
    refine List.forall_mem_cons.mpr ⟨⟨row, rfl⟩, ?_⟩
    exact ih (c := ⟨c.op, s⟩) hready

/-- That a cursor writes all of its rows or fails before the first, and does not fail any more once
it has answered a call for a row. -/
structure AllOrNothing (c : Cursor) : Prop where
  written : ∀ (fs : Files) (w : Writer), w.Unfailing →
    ((c.drain fs).2.1 = none ∧ (c.write fs w).1 = .ok (c.drain fs).1.length ∧
        (c.write fs w).2.1 = w.after (c.drain fs).1) ∨
      ∃ e, (c.drain fs).2.1 = some e ∧ (c.write fs w).1 = .error e ∧ (c.write fs w).2.1 = w
  answered : ∀ (fs : Files) (row : Option Row) (c' : Cursor), c.next fs = (.ok row, c') →
    ∀ later : List Files, ∀ r ∈ (c'.run (later.map fun fs => (fs, .next))).1,
      ∃ row, r = .row (.ok row)

end Cursor

end FlatQuery.Rows

namespace FlatQuery

/-- Whether a query has to see all rows before it can answer with one. -/
def Select.Blocks (q : Select) : Prop :=
  q.distinct = true ∨ q.orderBy ≠ [] ∨ q.groupBy ≠ [] ∨
    ∃ item ∈ q.items, SelectList.isAggregateItem item = true

namespace SelectList

/-- Under GROUP BY, and where an aggregate is selected, rows have to be grouped. -/
theorem Reads.isGrouped {items : List SelectItem} {groupBy : List Expr} {list : SelectList}
    (h : Reads items groupBy list)
    (hsome : groupBy ≠ [] ∨ ∃ item ∈ items, isAggregateItem item = true) :
    list.isGrouped = true := by
  cases h with
  | star =>
    rcases hsome with hsome | ⟨item, hitem, haggregate⟩
    · exact absurd rfl hsome
    · rw [List.mem_singleton.mp hitem] at haggregate
      cases haggregate
  | tableStar name =>
    rcases hsome with hsome | ⟨item, hitem, haggregate⟩
    · exact absurd rfl hsome
    · rw [List.mem_singleton.mp hitem] at haggregate
      cases haggregate
  | @listed columns keys calls aggregates hcalls hsub =>
    rcases hsome with hsome | ⟨item, hitem, haggregate⟩
    · cases keys with
      | nil => exact absurd rfl hsome
      | cons k keys => exact Bool.or_true _
    · rcases List.mem_append.mp hitem with hcolumn | hcall
      · obtain ⟨c, -, rfl⟩ := List.mem_map.mp hcolumn
        cases haggregate
      · cases hcalls with
        | nil => cases hcall
        | cons _ _ => rfl

end SelectList

namespace Plan

open Rows Outcome

variable {fs : Files} {catalog : Catalog} {q : Select} {p : Plan} {op : Operator}

/-! ### Plans with a gathering stage on top -/

/-- Whether the last stage of a plan gathers rows. -/
def blocks : Plan → Bool
  | groupSum _ _ _ _ _ => true
  | distinct _ => true
  | sort _ _ => true
  | _ => false

/-- The stages that may fail row by row are all below a stage that gathers. -/
theorem blocks_of_ofSelect (hp : ofSelect catalog q = .ok p) (hq : q.Blocks) :
    p.blocks = true := by
  obtain ⟨list, tables, joined, chosen, hlist, -, -, -, hchosen, hordered⟩ :=
    ofSelect_eq_ok_iff.mp hp
  rcases ordered_eq_ok_iff.mp hordered with ⟨hnone, rfl⟩ | ⟨-, keys, -, rfl⟩
  · cases hdistinct : q.distinct with
    | true => rfl
    | false =>
      have hsome : q.groupBy ≠ [] ∨ ∃ item ∈ q.items, SelectList.isAggregateItem item = true := by
        rcases hq with hq | hq | hq
        · rw [hdistinct] at hq
          cases hq
        · exact absurd hnone hq
        · exact hq
      have hgrouped := (SelectList.reads_of_analyse hlist).isGrouped hsome
      cases list with
      | star table => cases hgrouped
      | listed columns keys aggregates =>
        rcases selected_listed_cases columns keys aggregates with
          ⟨e, hcase⟩ | ⟨sums, labels, -, hcase⟩ | ⟨rfl, rfl, -⟩
        · rw [hcase] at hchosen
          cases hchosen
        · rw [hcase] at hchosen
          cases hchosen
          rfl
        · cases hgrouped
  · rfl

theorem gathers_of_bound (hp : p.blocks = true) (h : p.bound = .ok op) : op.gathers = true := by
  cases p with
  | groupSum input groupBy shown sums labels =>
    obtain ⟨i, -, h⟩ := bind_eq_ok_iff.mp h
    obtain ⟨g, -, h⟩ := bind_eq_ok_iff.mp h
    obtain ⟨w, -, h⟩ := bind_eq_ok_iff.mp h
    obtain ⟨u, -, h⟩ := bind_eq_ok_iff.mp h
    cases h
    rfl
  | distinct input =>
    obtain ⟨i, -, h⟩ := bind_eq_ok_iff.mp h
    cases h
    rfl
  | sort input keys =>
    obtain ⟨i, -, h⟩ := bind_eq_ok_iff.mp h
    cases h
    rfl
  | _ => cases hp

/-- A prepared query that blocks stands before its first row with nothing gathered. -/
theorem pending_of_prepare {p : Prepared} (hp : prepare fs catalog q = .ok p) (hq : q.Blocks) :
    p.cursor.op.gathered? p.cursor.state = some .pending := by
  obtain ⟨hplan, -, hcursor⟩ := prepare_eq_ok_iff.mp hp
  obtain ⟨hbound, hstart⟩ := bound_of_instantiate hcursor
  have hgathers := gathers_of_bound (blocks_of_ofSelect hplan hq) hbound
  exact Operator.pending_of_start hgathers hstart

/-- **All or nothing.**  A query with DISTINCT, ORDER BY, GROUP BY or an aggregate that could be
prepared writes all of its rows or fails before the first, whatever its files hold by then. -/
theorem all_or_nothing {p : Prepared} (hp : prepare fs catalog q = .ok p) (hq : q.Blocks) :
    p.cursor.AllOrNothing where
  written fs' w hw := by
    obtain ⟨hanswer, hwriter⟩ := Cursor.write_spec fs' p.cursor hw
    have hwhole : (p.cursor.yield fs').IsWhole := Operator.isWhole_yield (pending_of_prepare hp hq)
    rw [hanswer, hwriter]
    unfold Yield.count
    cases herror : (p.cursor.yield fs').error with
    | none => exact .inl ⟨herror, rfl, rfl⟩
    | some e =>
      have hnone : (p.cursor.yield fs').rows = [] := by
        refine hwhole.resolve_left fun h => ?_
        rw [herror] at h
        cases h
      refine .inr ⟨e, herror, rfl, ?_⟩
      rw [hnone, Writer.after_nil]
  answered fs' row c hnext later := by
    rcases hstep : p.cursor.op.machine.next fs' p.cursor.state with ⟨outcome, s⟩
    have hanswer : (outcome, (⟨p.cursor.op, s⟩ : Cursor)) = (.ok row, c) := by
      rw [← hnext, Cursor.next, hstep]
    obtain ⟨rfl, rfl⟩ := Prod.mk.inj hanswer
    obtain ⟨rest, hready⟩ := Operator.ready_of_next (pending_of_prepare hp hq) hstep
    exact Cursor.run_of_ready hready later

/-- The sums of marks, which are all there or fail together. -/
theorem all_or_nothing_sample :
    (prepare Sample.files sampleCatalog sampleQuery = .ok samplePrepared ∧ sampleQuery.Blocks) ∧
      samplePrepared.cursor.AllOrNothing := by
  have hprepare : prepare Sample.files sampleCatalog sampleQuery = .ok samplePrepared := rfl
  have hblocks : sampleQuery.Blocks := .inl rfl
  exact ⟨⟨hprepare, hblocks⟩, all_or_nothing hprepare hblocks⟩

end Plan

end FlatQuery
