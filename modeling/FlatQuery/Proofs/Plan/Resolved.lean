import FlatQuery.Proofs.Plan.Blocking
import FlatQuery.Proofs.Plan.ItemOrder
import FlatQuery.Proofs.Plan.SourceOrder

/-!
# What is resolved before the first row

Preparing a query resolves each of its references, except those in calls inside the argument of an
aggregate: such a call is kept as text, and nothing looks at its references
(`exists_bind_iff_openColumns`).  A query with such a reference cannot compute anything from a row
(`amount_of_innerColumns`), so the only row that it can show is the row of zeros over no rows at all
(`columns_resolved`).
-/

namespace FlatQuery

open Outcome Rows

/-! ### References inside and outside of calls -/

namespace Expr

/-- The references of an expression outside of calls. -/
def openColumns : Expr → List ColumnRef
  | column c => [c]
  | literal _ => []
  | binary l _ r => l.openColumns ++ r.openColumns
  | call _ _ => []
  | nested e => e.openColumns

/-- The references of an expression inside of calls. -/
def innerColumns : Expr → List ColumnRef
  | column _ => []
  | literal _ => []
  | binary l _ r => l.innerColumns ++ r.innerColumns
  | call _ args => argumentsColumns args
  | nested e => e.innerColumns

variable {c : ColumnRef}

theorem mem_columns_iff {e : Expr} :
    c ∈ e.columns ↔ c ∈ e.openColumns ∨ c ∈ e.innerColumns := by
  induction e using shallow with
  | column d => simp only [columns, openColumns, innerColumns, List.not_mem_nil, or_false]
  | literal v => simp only [columns, openColumns, innerColumns, or_self]
  | binary l op r ihl ihr =>
    simp only [columns, openColumns, innerColumns, List.mem_append, ihl, ihr]
    exact or_or_or_comm
  | nested e ih => exact ih
  | call name args => simp only [columns, openColumns, innerColumns, List.not_mem_nil, false_or]

theorem amount_of_innerColumns {v : ColumnRef → Option String} {e : Expr}
    (h : c ∈ e.innerColumns) : e.amount v = none := by
  induction e using shallow with
  | column d => cases h
  | literal u => cases h
  | binary l op r ihl ihr =>
    cases op with
    | times =>
      rw [amount]
      rcases List.mem_append.mp h with hl | hr
      · rw [ihl hl, Option.bind_none]
      · simp only [ihr hr, Option.map_none, Option.bind_fun_none]
    | _ => rfl
  | nested e ih => exact ih h
  | call name args => rfl

end Expr

namespace Argument

/-- The references of an argument outside of calls. -/
def openColumns : Argument → List ColumnRef
  | expr e => e.openColumns
  | star => []

/-- The references of an argument inside of calls. -/
def innerColumns : Argument → List ColumnRef
  | expr e => e.innerColumns
  | star => []

theorem mem_columns_iff {a : Argument} {c : ColumnRef} :
    c ∈ Expr.argumentColumns a ↔ c ∈ a.openColumns ∨ c ∈ a.innerColumns := by
  cases a with
  | expr e => exact Expr.mem_columns_iff
  | star => exact (or_self_iff).symm

end Argument

namespace SelectItem

def columns : SelectItem → List ColumnRef
  | expr e => e.columns
  | _ => []

/-- The references of an item that are not in a call inside another call. -/
def openColumns : SelectItem → List ColumnRef
  | expr (.call _ args) => args.flatMap (·.openColumns)
  | expr e => e.openColumns
  | _ => []

/-- The references of an item in a call inside another call. -/
def innerColumns : SelectItem → List ColumnRef
  | expr (.call _ args) => args.flatMap (·.innerColumns)
  | expr e => e.innerColumns
  | _ => []

theorem mem_columns_iff {item : SelectItem} {c : ColumnRef} :
    c ∈ item.columns ↔ c ∈ item.openColumns ∨ c ∈ item.innerColumns := by
  cases item with
  | star => simp only [columns, openColumns, innerColumns, or_self]
  | tableStar name => simp only [columns, openColumns, innerColumns, or_self]
  | expr e =>
    cases e with
    | call name args =>
      simp only [columns, openColumns, innerColumns, Expr.columns]
      induction args with
      | nil => simp only [Expr.argumentsColumns, List.flatMap_nil, or_self]
      | cons a args ih =>
        rw [Expr.argumentsColumns, List.flatMap_cons, List.flatMap_cons, List.mem_append,
          List.mem_append, List.mem_append, ih, Argument.mem_columns_iff]
        exact or_or_or_comm
    | _ => exact Expr.mem_columns_iff

end SelectItem

namespace Select

/-- The references of the SELECT list, of WHERE and of GROUP BY. -/
def columns (q : Select) : List ColumnRef :=
  q.items.flatMap (·.columns) ++ q.condition.elim [] (·.columns) ++ q.groupBy.flatMap (·.columns)

/-- The references of a query, except those in a call inside another call of the SELECT list. -/
def openColumns (q : Select) : List ColumnRef :=
  q.items.flatMap (·.openColumns) ++ q.condition.elim [] (·.columns) ++
    q.groupBy.flatMap (·.columns)

/-- The references of the SELECT list in a call inside another call. -/
def innerColumns (q : Select) : List ColumnRef :=
  q.items.flatMap (·.innerColumns)

theorem mem_columns_iff {q : Select} {c : ColumnRef} :
    c ∈ q.columns ↔ c ∈ q.openColumns ∨ c ∈ q.innerColumns := by
  have hitems : c ∈ q.items.flatMap (·.columns) ↔
      c ∈ q.items.flatMap (·.openColumns) ∨ c ∈ q.items.flatMap (·.innerColumns) := by
    simp only [List.mem_flatMap, SelectItem.mem_columns_iff, and_or_left, exists_or]
  simp only [columns, openColumns, innerColumns, List.mem_append, hitems]
  tauto

end Select

/-! ### Binding -/

/-- An expression can be bound exactly if its references outside of calls can be resolved. -/
theorem Scope.exists_bind_iff_openColumns {s : Scope} (e : Expr) :
    (∃ t, s.bind e = .ok t) ↔ ∀ c ∈ e.openColumns, ∃ i, s.resolve c = .ok i := by
  induction e using Expr.shallow with
  | column c => rw [bind, exists_bind_pure_iff, Expr.openColumns, List.forall_mem_singleton]
  | literal v => exact iff_of_true ⟨_, rfl⟩ (List.forall_mem_nil _)
  | binary l op r ihl ihr =>
    rw [bind, exists_bind_iff fun _ => exists_bind_pure_iff, ihl, ihr, Expr.openColumns,
      List.forall_mem_append]
  | nested e ih => rw [bind, exists_bind_pure_iff, ih, Expr.openColumns]
  | call name args => exact iff_of_true ⟨_, rfl⟩ (List.forall_mem_nil _)

theorem Scope.exists_resolve_canonical_iff {s : Scope} {c : ColumnRef} :
    (∃ i, s.resolve c.canonical = .ok i) ↔ ∃ i, s.resolve c = .ok i := by
  simp only [← toOption_eq_some_iff, Scope.toOption_resolve_canonical]

namespace Plan

variable {fs : Files} {catalog : Catalog} {q : Select} {tables : List Table} {joined chosen : Plan}
  {list : SelectList}

theorem resolve_of_sums {s : Scope} {calls sums : List Expr}
    (hcalls : List.Forall₂ (fun call e => ∃ name, call = .call name [.expr e] ∧
      Name.canonical name = "sum") calls sums)
    (hsums : ∀ e ∈ sums, ∃ t, s.bind e = .ok t) :
    ∀ c ∈ (calls.map SelectItem.expr).flatMap (·.openColumns), ∃ i, s.resolve c = .ok i := by
  induction hcalls with
  | nil => exact fun c hc => nomatch hc
  | cons hcall _ ih =>
    obtain ⟨name, rfl, -⟩ := hcall
    obtain ⟨he, hrest⟩ := List.forall_mem_cons.mp hsums
    rw [List.map_cons, List.flatMap_cons, List.forall_mem_append]
    refine ⟨?_, ih hrest⟩
    rw [SelectItem.openColumns, List.flatMap_singleton]
    exact (Scope.exists_bind_iff_openColumns _).mp he

theorem flatMap_openColumns_columns (cs : List ColumnRef) :
    (cs.map fun c => SelectItem.expr (.column c)).flatMap (·.openColumns) = cs := by
  rw [List.flatMap_map]
  exact List.flatMap_singleton' cs

theorem flatMap_columns_columns (cs : List ColumnRef) :
    (cs.map Expr.column).flatMap (·.columns) = cs := by
  rw [List.flatMap_map]
  exact List.flatMap_singleton' cs

theorem resolve_of_canonical {s : Scope} {cs : List ColumnRef}
    (h : ∀ c ∈ cs.map (·.canonical), ∃ i, s.resolve c = .ok i) :
    ∀ c ∈ cs, ∃ i, s.resolve c = .ok i :=
  fun _ hc => Scope.exists_resolve_canonical_iff.mp (h _ (List.mem_map_of_mem hc))

/-- What is selected can be bound only if the SELECT list and GROUP BY can be resolved. -/
theorem resolve_of_selected {items : List SelectItem} {groupBy : List Expr}
    (hreads : SelectList.Reads items groupBy list)
    (hchosen : selected list tables joined = .ok chosen) (hbound : ∃ op, chosen.bound = .ok op) :
    ∀ c ∈ items.flatMap (·.openColumns) ++ groupBy.flatMap (·.columns),
      ∃ i, (Scope.ofTables joined.tables).resolve c = .ok i := by
  cases hreads with
  | star => exact fun c hc => nomatch hc
  | tableStar name => exact fun c hc => nomatch hc
  | @listed columns keys calls aggregates hcalls hsub =>
    rw [List.flatMap_append, flatMap_openColumns_columns, flatMap_columns_columns,
      List.forall_mem_append, List.forall_mem_append]
    rcases selected_listed_cases (columns.map (·.canonical)) (keys.map (·.canonical)) aggregates
      with ⟨e, hcase⟩ | ⟨sums, labels, hsums, hcase⟩ | ⟨hnone, hkeys, hcase⟩
    · rw [hcase] at hchosen
      cases hchosen
    · rw [hcase] at hchosen
      cases hchosen
      obtain ⟨-, hgroup, hshown, hbind⟩ := exists_bound_groupSum_iff.mp hbound
      refine ⟨⟨resolve_of_canonical hshown, ?_⟩, ?_⟩
      · exact resolve_of_sums (SelectList.calls_of_sumsOf hcalls hsums) hbind
      · cases keys with
        | nil => exact fun c hc => nomatch hc
        | cons k keys => exact resolve_of_canonical hgroup
    · rw [hcase] at hchosen
      cases hchosen
      obtain ⟨-, hshown⟩ := exists_bound_project_iff.mp hbound
      obtain rfl : keys = [] := List.map_eq_nil_iff.mp hkeys
      subst hnone
      cases hcalls
      exact ⟨⟨resolve_of_canonical hshown, fun c hc => nomatch hc⟩, fun c hc => nomatch hc⟩

/-- Once a query has been prepared, its references outside of inner calls have been resolved. -/
theorem resolve_of_prepare {p : Prepared} (hp : prepare fs catalog q = .ok p)
    (htables : sourceTables catalog [] q.sources = .ok tables) :
    ∀ c ∈ q.openColumns, ∃ i, (Scope.ofTables tables).resolve c = .ok i := by
  obtain ⟨hplan, -, hcursor⟩ := prepare_eq_ok_iff.mp hp
  obtain ⟨list, tables', joined, chosen, hlist, -, htables', hjoined, hchosen, hordered⟩ :=
    ofSelect_eq_ok_iff.mp hplan
  obtain rfl : tables' = tables := Except.ok.inj (htables'.symm.trans htables)
  have hbound := (exists_bound_of_ordered_iff hordered).mp ⟨_, (bound_of_instantiate hcursor).1⟩
  have hselected := resolve_of_selected (SelectList.reads_of_analyse hlist) hchosen
    (exists_bound_deduplicated_iff.mp hbound)
  rw [tables_of_base hjoined, List.forall_mem_append] at hselected
  rw [Select.openColumns, List.forall_mem_append, List.forall_mem_append]
  refine ⟨⟨hselected.1, ?_⟩, hselected.2⟩
  obtain ⟨-, hcondition⟩ := exists_base_iff.mp ⟨joined, hjoined⟩
  cases hq : q.condition with
  | none => exact fun c hc => nomatch hc
  | some e => exact (Scope.exists_qualifyExpr_iff e).mp (hcondition e hq)

/-! ### Calls inside calls -/

/-- Rows that have been grouped under a sum with an inner call are no rows at all. -/
theorem IsGrouping.rows_eq_nil {s : Scope} {keys columns : List ColumnRef} {sums : List Expr}
    {rows out : List Row} {e : Expr} {c : ColumnRef} (h : IsGrouping s keys columns sums rows out)
    (he : e ∈ sums) (hc : c ∈ e.innerColumns) : rows = [] := by
  refine List.eq_nil_iff_forall_not_mem.mpr fun r hr => ?_
  obtain ⟨o, -, members, hmember, shown, totals, -, -, htotals⟩ := exists_groupRow_of_mem h hr
  obtain ⟨n, -, ms, hms, -⟩ := exists_mem_of_forall₂ htotals.flip he
  obtain ⟨m, -, hm⟩ := exists_mem_of_forall₂ hms.flip hmember
  rw [Expr.amount_of_innerColumns hc] at hm
  cases hm

/-- What is made of no rows is no row, or the row of zeros. -/
theorem IsGrouping.of_nil {s : Scope} {keys columns : List ColumnRef} {sums : List Expr}
    {out : List Row} (h : IsGrouping s keys columns sums [] out) :
    out = [] ∨ keys = [] ∧ columns = [] ∧ out = [⟨sums.map fun _ => Integer.toText 0⟩] := by
  unfold IsGrouping at h
  split at h
  · rename_i hnil
    exact .inr ⟨hnil.2.1, hnil.2.2, h⟩
  · rw [List.map_nil, List.eraseDups_nil, List.forall₂_nil_left_iff] at h
    exact .inl h

/-- An item with an inner call is the call of an aggregate, one that can only be added up over no
rows. -/
theorem Chosen.of_innerColumns {items : List SelectItem} {groupBy : List Expr}
    {rows out : List Row} {c : ColumnRef} (h : Chosen tables items groupBy rows out)
    (hc : c ∈ items.flatMap (·.innerColumns)) :
    rows = [] ∧ (out = [] ∨ groupBy = [] ∧ out = [⟨items.map fun _ => Integer.toText 0⟩]) := by
  cases h with
  | star => cases hc
  | onlyStar ht hname => cases hc
  | tableStar hmany ht hrows => cases hc
  | columns hrows =>
    obtain ⟨item, hitem, hc⟩ := List.mem_flatMap.mp hc
    obtain ⟨d, -, rfl⟩ := List.mem_map.mp hitem
    cases hc
  | @groups columns keys calls sums _ _ hsome hcalls hgroups =>
    obtain ⟨item, hitem, hc⟩ := List.mem_flatMap.mp hc
    rcases List.mem_append.mp hitem with hitem | hitem
    · obtain ⟨d, -, rfl⟩ := List.mem_map.mp hitem
      cases hc
    · obtain ⟨call, hcall, rfl⟩ := List.mem_map.mp hitem
      obtain ⟨e, he, name, rfl, -⟩ := exists_mem_of_forall₂ hcalls.flip hcall
      rw [SelectItem.innerColumns, List.flatMap_singleton] at hc
      obtain rfl := hgroups.rows_eq_nil he hc
      refine ⟨rfl, hgroups.of_nil.imp_right ?_⟩
      rintro ⟨hkeys, rfl, rfl⟩
      obtain rfl : keys = [] := by simpa using hkeys
      rw [List.map_nil, List.map_nil, List.nil_append, List.map_map, List.map_const',
        Function.comp_def, List.map_const', hcalls.length_eq]
      exact ⟨rfl, rfl⟩

theorem exists_aggregate_of_innerColumns {items : List SelectItem} {groupBy : List Expr}
    {c : ColumnRef} (h : SelectList.Reads items groupBy list)
    (hc : c ∈ items.flatMap (·.innerColumns)) :
    ∃ item ∈ items, SelectList.isAggregateItem item = true := by
  by_contra hnone
  have hfalse : ∀ item ∈ items, SelectList.isAggregateItem item = false := fun item hitem =>
    Bool.eq_false_iff.mpr fun htrue => hnone ⟨item, hitem, htrue⟩
  cases h with
  | star => cases hc
  | tableStar name => cases hc
  | @listed columns keys calls aggregates hcalls hsub =>
    obtain rfl := (SelectList.Reads.listed hcalls hsub).aggregates_eq_nil hfalse
    cases hcalls
    obtain ⟨item, hitem, hc⟩ := List.mem_flatMap.mp hc
    rw [List.map_nil, List.append_nil] at hitem
    obtain ⟨d, -, rfl⟩ := List.mem_map.mp hitem
    cases hc

theorem eq_singleton_of_arranged {items : List OrderItem} {labels : List String}
    {rows out : List Row} {r : Row} (h : Arranged items labels rows out)
    (hrows : rows = [] ∨ rows = [r]) : out = rows := by
  unfold Arranged at h
  split at h
  · exact h
  · obtain ⟨keys, -, hperm, -⟩ := h
    rcases hrows with rfl | rfl
    · exact hperm.eq_nil
    · exact List.perm_singleton.mp hperm

/-- **What has been resolved.**  A query that could be prepared has had all of its references
resolved, in the SELECT list, in WHERE and in GROUP BY, except those in a call inside the argument
of an aggregate.  If it has such a reference, then it shows no row, unless there are no rows to add
up: a sum without GROUP BY is zero then. -/
theorem columns_resolved {p : Prepared} (hp : prepare fs catalog q = .ok p) :
    ∃ tables joined, sourceTables catalog [] q.sources = .ok tables ∧
      base tables q.condition = .ok joined ∧
      (∀ c ∈ q.openColumns, ∃ i, (Scope.ofTables tables).resolve c = .ok i) ∧
      (q.innerColumns = [] → ∀ c ∈ q.columns, ∃ i, (Scope.ofTables tables).resolve c = .ok i) ∧
      (q.innerColumns ≠ [] → (p.cursor.drain fs).1 ≠ [] → HandsOut fs joined [] ∧
        q.groupBy = [] ∧ (p.cursor.drain fs).1 = [⟨q.items.map fun _ => Integer.toText 0⟩]) := by
  obtain ⟨hplan, -, hcursor⟩ := prepare_eq_ok_iff.mp hp
  obtain ⟨list, tables, joined, chosen, hlist, -, htables, hjoined, hchosen, hordered⟩ :=
    ofSelect_eq_ok_iff.mp hplan
  have hopen := resolve_of_prepare hp htables
  have hreads := SelectList.reads_of_analyse hlist
  refine ⟨tables, joined, htables, hjoined, hopen, ?_, ?_⟩
  · intro hnil c hc
    rcases Select.mem_columns_iff.mp hc with hc | hc
    · exact hopen c hc
    · rw [hnil] at hc
      cases hc
  · intro hinner hsome
    obtain ⟨c, hc⟩ := List.exists_mem_of_ne_nil _ hinner
    have hblocks : q.Blocks := .inr (.inr (.inr (exists_aggregate_of_innerColumns hreads hc)))
    have hwhole : (p.cursor.yield fs).IsWhole :=
      Operator.isWhole_yield (pending_of_prepare hp hblocks)
    have hend : (p.cursor.drain fs).2.1 = none := hwhole.resolve_right hsome
    have hout : HandsOut fs p.plan (p.cursor.drain fs).1 := ⟨p.cursor, hcursor, rfl, hend⟩
    obtain ⟨-, once, honce, harranged⟩ := hout.ordered hordered
    obtain ⟨shown, hshown, honce⟩ := honce.deduplicated
    obtain ⟨rows, hrows, hselected⟩ := hshown.selected hreads hchosen (tables_of_base hjoined)
    obtain ⟨rfl, hcases⟩ := hselected.of_innerColumns hc
    have hdups : once = shown := by
      rw [honce]
      rcases hcases with rfl | ⟨-, rfl⟩
      · exact ite_self _
      · exact ite_self _
    subst hdups
    rw [eq_singleton_of_arranged harranged (hcases.imp_right (·.2))] at hsome ⊢
    exact ⟨hrows, hcases.resolve_left hsome⟩

/-- The references of the sums of marks are those of the pupils and of the marks. -/
theorem columns_resolved_sample :
    prepare Sample.files sampleCatalog sampleQuery = .ok samplePrepared ∧
      ∃ tables joined, sourceTables sampleCatalog [] sampleQuery.sources = .ok tables ∧
        base tables sampleQuery.condition = .ok joined ∧
        (∀ c ∈ sampleQuery.openColumns, ∃ i, (Scope.ofTables tables).resolve c = .ok i) ∧
        (sampleQuery.innerColumns = [] →
          ∀ c ∈ sampleQuery.columns, ∃ i, (Scope.ofTables tables).resolve c = .ok i) ∧
        (sampleQuery.innerColumns ≠ [] → (samplePrepared.cursor.drain Sample.files).1 ≠ [] →
          HandsOut Sample.files joined [] ∧ sampleQuery.groupBy = [] ∧
          (samplePrepared.cursor.drain Sample.files).1 =
            [⟨sampleQuery.items.map fun _ => Integer.toText 0⟩]) := by
  have hprepare : prepare Sample.files sampleCatalog sampleQuery = .ok samplePrepared := rfl
  exact ⟨hprepare, columns_resolved hprepare⟩

/-- A sum over pupils whose argument calls a function of a column that there is not. -/
def innerQuery : Select where
  items := [.expr (.call "SUM" [.expr (.call "f" [.expr (.column { column := "nope" })])])]
  sources := [.table "pupils"]

def innerPrepared : Prepared where
  plan := .groupSum (.scan Sample.pupils) [] []
    [.call "f" [.expr (.column { column := "nope" })]] ["sum(f(nope))"]
  labels := ["sum(f(nope))"]
  cursor :=
    { op := .groupSum (.scan Sample.pupils) { group := [], shown := [], sums := [.call "f(nope)"] }
      state := { input := { node := .file 0 } } }

/-- A reference in an inner call need not be resolved, and over a table without rows the query even
answers with a row. -/
theorem not_columns_resolved :
    ¬ ∀ (fs : Files) (catalog : Catalog) (q : Select) (p : Prepared) (tables : List Table),
      prepare fs catalog q = .ok p → sourceTables catalog [] q.sources = .ok tables →
        (∀ c ∈ q.columns, ∃ i, (Scope.ofTables tables).resolve c = .ok i) ∨
          (p.cursor.drain fs).1 = [] := by
  intro hall
  have hprepare : prepare (Sample.filesWith "" "") sampleCatalog innerQuery = .ok innerPrepared :=
    rfl
  rcases hall _ _ _ _ [Sample.pupils] hprepare rfl with hresolved | hnone
  · obtain ⟨i, hi⟩ := hresolved { column := "nope" } (List.mem_singleton_self _)
    have herror : (Scope.ofTables [Sample.pupils]).resolve { column := "nope" } =
        .error (.unknownColumn "nope") := by
      decide +kernel
    rw [herror] at hi
    cases hi
  · have hdrain := @Cursor.drain_of_start (Sample.filesWith "" "") innerPrepared.cursor rfl
    have hrows : (innerPrepared.cursor.drain (Sample.filesWith "" "")).1 = [⟨["0"]⟩] :=
      (congrArg Yield.rows hdrain).trans (by decide)
    rw [hrows] at hnone
    cases hnone

end Plan

end FlatQuery
