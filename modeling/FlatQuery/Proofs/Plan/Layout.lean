import FlatQuery.Proofs.Plan.Pushdown
import FlatQuery.Proofs.Plan.RowOrder
import FlatQuery.Proofs.Rows.Kept

/-!
# Rows that fit their labels

Columns are bound in scopes made of the tables of a plan, sort keys are found among labels, and rows
are put together by operators that know of neither.  If the rows of the data files are as wide as
their tables, the three agree: below grouping and projection a row consists of one row of each
table, in the order of the scope (`Emits`), and everywhere rows are as wide as there are labels
(`width_of_emits`).  So no run of a prepared query looks for a field that is not there
(`run_prepared`).
-/

namespace FlatQuery.Plan

open Rows Outcome

/-! ### Plans of queries -/

/-- The plans of queries: joins and selections, then columns or groups, and on top of them
operators that keep rows as they are.  Sort keys are among the labels. -/
inductive WellFormed : Plan → Prop
  | base {p : Plan} (hp : p.IsBase) : WellFormed p
  | project {p : Plan} (hp : p.IsBase) (columns : List ColumnRef) : WellFormed (.project p columns)
  | groupSum {p : Plan} (hp : p.IsBase) (keys columns : List ColumnRef) {sums : List Expr}
      {labels : List String} (hsums : sums.length = labels.length) :
      WellFormed (.groupSum p keys columns sums labels)
  | distinct {p : Plan} (hp : WellFormed p) : WellFormed (.distinct p)
  | sort {p : Plan} {keys : List OrderKey} (hp : WellFormed p)
      (hkeys : ∀ k ∈ keys, k.index < p.labels.length) : WellFormed (.sort p keys)

variable {fs : Files} {catalog : Catalog} {q : Select} {p m : Plan} {op : Operator}
  {ts : List Table} {r : Row}

theorem length_of_sumsOf {aggregates : List Aggregate} {sums : List Expr} {labels : List String}
    (h : sumsOf aggregates = .ok (sums, labels)) : sums.length = labels.length := by
  obtain ⟨rfl, rfl⟩ := SelectList.eq_of_sumsOf h
  rw [List.length_map, List.length_map]

theorem wellFormed_of_selected {list : SelectList} (hp : p.IsBase)
    (hm : selected list ts p = .ok m) : m.WellFormed := by
  cases list with
  | star table =>
    rcases selected_star_cases hm with rfl | ⟨columns, rfl⟩
    · exact .base hp
    · exact .project hp columns
  | listed columns keys aggregates =>
    rcases selected_listed_cases columns keys aggregates with
      ⟨e, h⟩ | ⟨sums, labels, hsums, h⟩ | ⟨-, -, h⟩
    · rw [h] at hm
      cases hm
    · rw [h] at hm
      cases hm
      exact .groupSum hp _ columns (length_of_sumsOf hsums)
    · rw [h] at hm
      cases hm
      exact .project hp columns

theorem lt_length_of_fieldOf {labels : List String} {label : String} {i : Nat}
    (h : fieldOf? labels label = some i) : i < labels.length := by
  unfold fieldOf? at h
  split at h
  · rename_i j hj
    cases h
    exact (List.idxOf?_eq_some_iff.mp hj).1
  · exact (List.findIdx?_eq_some_iff_getElem.mp h).1

theorem index_lt_of_orderKeys {items : List OrderItem} {labels : List String} {ks : List OrderKey}
    (h : orderKeys items labels = .ok ks) : ∀ k ∈ ks, k.index < labels.length := by
  intro k hk
  obtain ⟨item, -, hitem⟩ := (mem_iff_of_mapM h).mp hk
  obtain ⟨label, -, hitem⟩ := bind_eq_ok_iff.mp hitem
  split at hitem
  · rename_i i hi
    cases hitem
    exact lt_length_of_fieldOf hi
  · cases hitem

theorem wellFormed_of_ofSelect (h : ofSelect catalog q = .ok p) : p.WellFormed := by
  obtain ⟨list, ts, joined, chosen, -, -, -, hjoined, hchosen, hordered⟩ :=
    ofSelect_eq_ok_iff.mp h
  have hchosen' : chosen.WellFormed := wellFormed_of_selected (isBase_of_base hjoined) hchosen
  have honce : (deduplicated q.distinct chosen).WellFormed := by
    unfold deduplicated
    split
    · exact .distinct hchosen'
    · exact hchosen'
  rcases ordered_eq_ok_iff.mp hordered with ⟨-, rfl⟩ | ⟨-, ks, hks, rfl⟩
  · exact honce
  · exact .sort honce (index_lt_of_orderKeys hks)

/-! ### What rows look like -/

/-- What holds of the rows of a plan: joined rows consist of a row of each table, in the order of the
tables, and rows that are made of them are as wide as what is selected. -/
def Emits (fs : Files) : Plan → Row → Prop
  | groupSum _ _ shown _ sumLabels => (·.width = shown.length + sumLabels.length)
  | project _ columns => (·.width = columns.length)
  | distinct input => input.Emits fs
  | sort input _ => input.Emits fs
  | p => (· ∈ product (p.tables.map (dataRows fs)))

theorem emits_of_isBase (hp : p.IsBase) :
    p.Emits fs = (· ∈ product (p.tables.map (dataRows fs))) := by
  cases p with
  | scan t => rfl
  | select input t on => rfl
  | join l r on => rfl
  | filter input on => rfl
  | _ => exact hp.elim

theorem length_labels_of_isBase (hp : p.IsBase) :
    p.labels.length = Scope.widthOf (scopeTables p.tables) := by
  induction p with
  | scan t =>
    rw [labels, List.length_map, tables, scopeTables, List.map_singleton, Scope.widthOf_cons,
      Scope.width_ofTable]
    rfl
  | select input t on ih =>
    obtain rfl : input = .scan t := hp
    exact ih trivial
  | join l r on ihl ihr =>
    rw [labels, List.length_append, ihl hp.1, ihr hp.2, ← Scope.widthOf_append, scopeTables,
      scopeTables, ← List.map_append]
    rfl
  | filter input on ih => exact ih hp
  | _ => exact hp.elim

/-- That the rows of the data files of tables are as wide as the tables. -/
def RowsFit (fs : Files) (ts : List Table) : Prop :=
  ∀ t ∈ ts, ∀ r ∈ dataRows fs t, r.width = t.columns.length

theorem width_of_emits (hdata : RowsFit fs p.tables) (hp : p.WellFormed) (h : p.Emits fs r) :
    r.width = p.labels.length := by
  induction hp with
  | base hp =>
    rw [emits_of_isBase hp] at h
    rw [width_product hdata h, length_labels_of_isBase hp]
  | project hp columns =>
    rw [labels, List.length_map]
    exact h
  | groupSum hp keys columns hsums =>
    rw [labels, List.length_append, List.length_map]
    exact h
  | distinct hp ih => exact ih hdata h
  | sort hp hkeys ih => exact ih hdata h

theorem onlyHands_of_isBase (hdata : RowsFit fs p.tables) (hp : p.IsBase) (hop : p.bound = .ok op) :
    op.OnlyHands fs (· ∈ product (p.tables.map (dataRows fs))) := by
  have hscope : ∀ {ts : List Table}, RowsFit fs ts → ∀ r ∈ product (ts.map (dataRows fs)),
      r.width = (Scope.ofTables ts).width := fun hts r hr => width_product hts hr
  induction p generalizing op with
  | scan t =>
    cases hop
    refine .scan fun r hr => ?_
    rwa [tables, List.map_singleton, product_singleton]
  | select input t on ih =>
    obtain rfl : input = .scan t := hp
    obtain ⟨i, hi, hop⟩ := bind_eq_ok_iff.mp hop
    obtain ⟨on', hon, hop⟩ := bind_eq_ok_iff.mp hop
    cases hop
    have hwidth : ∀ r ∈ product ([t].map (dataRows fs)), r.width = (Scope.ofTable t).width :=
      hscope hdata
    exact (ih hdata trivial hi).filter fun r hr => inPlace_passes (hwidth r hr) hon
  | join left right on ihl ihr =>
    obtain ⟨i, hi, hop⟩ := bind_eq_ok_iff.mp hop
    obtain ⟨j, hj, hop⟩ := bind_eq_ok_iff.mp hop
    obtain ⟨on', hon, hop⟩ := bind_eq_ok_iff.mp hop
    cases hop
    obtain ⟨hleft, hright⟩ := List.forall_mem_append.mp hdata
    refine (ihl hleft hp.1 hi).join (ihr hright hp.2 hj) (fun a b ha hb => ?_)
      fun r hr => inPlace_passes (hscope hdata r hr) hon
    rw [tables, List.map_append]
    exact append_mem_product ha hb
  | filter input on ih =>
    obtain ⟨i, hi, hop⟩ := bind_eq_ok_iff.mp hop
    obtain ⟨on', hon, hop⟩ := bind_eq_ok_iff.mp hop
    cases hop
    exact (ih hdata hp hi).filter fun r hr => inPlace_passes (hscope hdata r hr) hon
  | _ => exact hp.elim

theorem index_lt_of_resolve (hdata : RowsFit fs ts) {columns : List ColumnRef} {indexes : List Nat}
    (h : columns.mapM (Scope.ofTables ts).resolve = .ok indexes)
    (hr : r ∈ product (ts.map (dataRows fs))) : ∀ i ∈ indexes, i < r.width := by
  intro i hi
  obtain ⟨c, -, hc⟩ := (mem_iff_of_mapM h).mp hi
  have hwidth : r.width = (Scope.ofTables ts).width := width_product hdata hr
  exact hwidth ▸ Scope.lt_width_of_resolve hc

theorem onlyHands_of_bound (hdata : RowsFit fs p.tables) (hp : p.WellFormed)
    (hop : p.bound = .ok op) : op.OnlyHands fs (p.Emits fs) := by
  -- over the stages above the joins: each hands out rows as wide as what it shows
  induction hp generalizing op with
  | base hp =>
    rw [emits_of_isBase hp]
    exact onlyHands_of_isBase hdata hp hop
  | @project p hp columns =>
    obtain ⟨i, hi, hop⟩ := bind_eq_ok_iff.mp hop
    obtain ⟨indexes, hindexes, hop⟩ := bind_eq_ok_iff.mp hop
    cases hop
    have hinput : RowsFit fs p.tables := hdata
    have hproject : (Operator.project i indexes (columns.map (·.label))).OnlyHands fs
        (·.width = indexes.length) :=
      (onlyHands_of_isBase hinput hp hi).project fun r hr => index_lt_of_resolve hinput hindexes hr
    rwa [length_mapM hindexes] at hproject
  | @groupSum p hp keys columns sums labels hsums =>
    obtain ⟨i, hi, hop⟩ := bind_eq_ok_iff.mp hop
    obtain ⟨group, hgroup, hop⟩ := bind_eq_ok_iff.mp hop
    obtain ⟨shown, hshown, hop⟩ := bind_eq_ok_iff.mp hop
    obtain ⟨terms, hterms, hop⟩ := bind_eq_ok_iff.mp hop
    cases hop
    have hinput : RowsFit fs p.tables := hdata
    have hsummands : ∀ r ∈ product (p.tables.map (dataRows fs)), ∀ t ∈ terms,
        InPlace (t.summand r) := by
      intro r hr t ht
      obtain ⟨e, -, he⟩ := (mem_iff_of_mapM hterms).mp ht
      have hwidth : r.width = (Scope.ofTables p.tables).width := width_product hinput hr
      exact inPlace_summand hwidth he
    have hgrouped : (Operator.groupSum i { group, shown, sums := terms }).OnlyHands fs
        (·.width = shown.length + terms.length) :=
      (onlyHands_of_isBase hinput hp hi).groupSum
        (fun r hr => index_lt_of_resolve hinput hgroup hr)
        (fun r hr => index_lt_of_resolve hinput hshown hr) hsummands
    rwa [length_mapM hshown, length_mapM hterms, hsums] at hgrouped
  | distinct hp ih =>
    obtain ⟨i, hi, hop⟩ := bind_eq_ok_iff.mp hop
    cases hop
    exact (ih hdata hi).distinct
  | @sort p keys hp hkeys ih =>
    obtain ⟨i, hi, hop⟩ := bind_eq_ok_iff.mp hop
    cases hop
    have hinput : RowsFit fs p.tables := hdata
    refine (ih hinput hi).sort fun k hk r hr => ?_
    obtain ⟨k', hk', rfl⟩ := List.mem_map.mp hk
    rw [width_of_emits hinput hp hr]
    exact hkeys k' hk'

/-! ### Every node -/

/-- That a plan that has been set up answers some run of calls with a row. -/
def Offers (fs : Files) (p : Plan) (r : Row) : Prop :=
  ∃ (c : Cursor) (calls : List Call), p.instantiate fs = .ok c ∧
    Reply.row (.ok (some r)) ∈ (c.run (calls.map fun call => (fs, call))).1

/-- That a scope describes a row: it has as many fields, and the row consists of a row of each of its
tables, in their order. -/
def Describes (fs : Files) (s : Scope) (r : Row) : Prop :=
  ∃ ts : List Table, s.tables = ts.map .ofTable ∧ r.width = s.width ∧
    r ∈ product (ts.map (dataRows fs))

/-- That each node of a plan fits the rows it evaluates, however its inputs are asked for them: the
scope that its columns are bound in describes the rows, and its sort keys are among their fields. -/
def LaidOut (fs : Files) : Plan → Prop
  | scan _ => True
  | select input t on => input.LaidOut fs ∧ ∃ s,
      (select input t on).instantiate fs = (do (← input.instantiate fs).filter (some on) s) ∧
        ∀ r, input.Offers fs r → Describes fs s r
  | join left right on => left.LaidOut fs ∧ right.LaidOut fs ∧ ∃ s,
      (join left right on).instantiate fs =
        (do (← left.instantiate fs).join (← right.instantiate fs) on s) ∧
        ∀ a b, left.Offers fs a → right.Offers fs b → Describes fs s (a.append b)
  | filter input on => input.LaidOut fs ∧ ∃ s,
      (filter input on).instantiate fs = (do (← input.instantiate fs).filter (some on) s) ∧
        ∀ r, input.Offers fs r → Describes fs s r
  | groupSum input groupBy shown sums labels => input.LaidOut fs ∧ ∃ s,
      (groupSum input groupBy shown sums labels).instantiate fs =
        (do (← input.instantiate fs).groupSum groupBy shown sums s) ∧
        ∀ r, input.Offers fs r → Describes fs s r
  | project input columns => input.LaidOut fs ∧ ∃ s,
      (project input columns).instantiate fs = (do (← input.instantiate fs).project columns s) ∧
        ∀ r, input.Offers fs r → Describes fs s r
  | distinct input => input.LaidOut fs
  | sort input keys => input.LaidOut fs ∧ (∀ k ∈ keys, k.index < input.labels.length) ∧
      ∀ r, input.Offers fs r → r.width = input.labels.length

theorem emits_of_offers (hdata : RowsFit fs p.tables) (hp : p.WellFormed) (h : p.Offers fs r) :
    p.Emits fs r := by
  obtain ⟨c, calls, hc, hmem⟩ := h
  obtain ⟨hop, hstart⟩ := bound_of_instantiate hc
  exact (onlyHands_of_bound hdata hp hop).run hstart calls _ hmem

theorem mem_product_of_offers (hdata : RowsFit fs p.tables) (hp : p.IsBase) (h : p.Offers fs r) :
    r ∈ product (p.tables.map (dataRows fs)) := by
  have hemits := emits_of_offers hdata (.base hp) h
  rwa [emits_of_isBase hp] at hemits

theorem describes_of_mem_product (hdata : RowsFit fs ts)
    (h : r ∈ product (ts.map (dataRows fs))) : Describes fs (.ofTables ts) r :=
  ⟨ts, rfl, width_product hdata h, h⟩

theorem laidOut_of_isBase (hdata : RowsFit fs p.tables) (hp : p.IsBase) : p.LaidOut fs := by
  induction p with
  | scan t => trivial
  | select input t on ih =>
    obtain rfl : input = .scan t := hp
    refine ⟨trivial, .ofTable t, rfl, fun r hr => ?_⟩
    have hscan : RowsFit fs (scan t).tables := hdata
    have hmem : r ∈ product ([t].map (dataRows fs)) := mem_product_of_offers hscan trivial hr
    exact ⟨[t], rfl, width_product hscan hmem, hmem⟩
  | join left right on ihl ihr =>
    obtain ⟨hleft, hright⟩ := List.forall_mem_append.mp hdata
    refine ⟨ihl hleft hp.1, ihr hright hp.2, .ofTables (left.tables ++ right.tables), rfl, ?_⟩
    intro a b ha hb
    refine describes_of_mem_product hdata ?_
    rw [List.map_append]
    exact append_mem_product (mem_product_of_offers hleft hp.1 ha)
      (mem_product_of_offers hright hp.2 hb)
  | filter input on ih =>
    have hinput : RowsFit fs input.tables := hdata
    exact ⟨ih hinput hp, .ofTables input.tables, rfl, fun r hr =>
      describes_of_mem_product hinput (mem_product_of_offers hinput hp hr)⟩
  | _ => exact hp.elim

theorem laidOut_of_wellFormed (hdata : RowsFit fs p.tables) (hp : p.WellFormed) :
    p.LaidOut fs := by
  induction hp with
  | base hp => exact laidOut_of_isBase hdata hp
  | @project p hp columns =>
    have hinput : RowsFit fs p.tables := hdata
    exact ⟨laidOut_of_isBase hinput hp, .ofTables p.tables, rfl, fun r hr =>
      describes_of_mem_product hinput (mem_product_of_offers hinput hp hr)⟩
  | @groupSum p hp keys columns sums labels hsums =>
    have hinput : RowsFit fs p.tables := hdata
    exact ⟨laidOut_of_isBase hinput hp, .ofTables p.tables, rfl, fun r hr =>
      describes_of_mem_product hinput (mem_product_of_offers hinput hp hr)⟩
  | distinct hp ih => exact ih hdata
  | @sort p keys hp hkeys ih =>
    have hinput : RowsFit fs p.tables := hdata
    exact ⟨ih hinput, hkeys, fun r hr =>
      width_of_emits hinput hp (emits_of_offers hinput hp hr)⟩

/-! ### Every run -/

/-- **Rows fit their labels.**  Let the rows of the data files be as wide as their tables.  However a
prepared query is asked for rows and told to start over, each row that it hands out has a field for
each label, and no call fails because a field or a column is not there or not the only one.  The same
agreement holds at every node of the plan. -/
theorem run_prepared {fs : Files} {catalog : Catalog} {q : Select} {p : Prepared}
    (hp : prepare fs catalog q = .ok p) (hdata : RowsFit fs p.plan.tables) :
    (∀ calls : List Call, ∀ reply ∈ (p.cursor.run (calls.map fun call => (fs, call))).1,
      reply.Sound (·.width = p.labels.length)) ∧
    p.plan.LaidOut fs := by
  obtain ⟨hplan, hlabels, hc⟩ := prepare_eq_ok_iff.mp hp
  have hshape := wellFormed_of_ofSelect hplan
  obtain ⟨hop, hstart⟩ := bound_of_instantiate hc
  refine ⟨fun calls reply hreply => ?_, laidOut_of_wellFormed hdata hshape⟩
  have hsound := (onlyHands_of_bound hdata hshape hop).run hstart calls reply hreply
  refine hsound.imp fun r hr => ?_
  rw [hlabels]
  exact width_of_emits hdata hshape hr

/-- The marks that pupils got are read in part, and then again from the first on. -/
theorem run_prepared_sample :
    (prepare Sample.files sampleCatalog orderedQuery = .ok orderedPrepared ∧
      RowsFit Sample.files orderedPrepared.plan.tables) ∧
    (∀ reply ∈ (orderedPrepared.cursor.run
        ([.next, .reset, .next, .next, .next].map fun call => (Sample.files, call))).1,
      reply.Sound (·.width = 1)) ∧
    orderedPrepared.plan.LaidOut Sample.files := by
  have hdata : RowsFit Sample.files orderedPrepared.plan.tables :=
    List.forall_mem_cons.mpr ⟨by decide, List.forall_mem_singleton.mpr (by decide)⟩
  obtain ⟨hrun, hlaid⟩ := run_prepared prepare_orderedQuery hdata
  exact ⟨⟨prepare_orderedQuery, hdata⟩, hrun _, hlaid⟩

end FlatQuery.Plan
