import FlatQuery.Proofs.Plan.Base
import FlatQuery.Proofs.Plan.Bound
import FlatQuery.Proofs.Plan.SelectList
import FlatQuery.Proofs.Rows.Grouped
import FlatQuery.Proofs.Rows.Resolve

/-!
# The stages of a query

A query is answered in stages.  Each takes the rows of the stage before it: what is selected
(`Chosen`), each row once, and the order (`Arranged`).  The stages are stated about the values that
column references have in a row of the joined tables, not about fields and indexes, and each is
shown on its own (`HandsOut.project`, `HandsOut.groupSum`, `HandsOut.distinct`, `HandsOut.sort`).
-/

namespace FlatQuery.Plan

open Rows Outcome

/-! ### What the stages say -/

def valuesIn (s : Scope) (columns : List ColumnRef) (r : Row) : List (Option String) :=
  columns.map (s.value r)

/-- That rows are made of others by keeping the values of references, in their order. -/
def Restricted (s : Scope) (columns : List ColumnRef) (rows out : List Row) : Prop :=
  List.Forall₂ (fun r o => o.fields.map some = valuesIn s columns r) rows out

/-- That an integer is the exact sum of an expression over some rows. -/
def IsTotal (s : Scope) (members : List Row) (e : Expr) (n : Int) : Prop :=
  ∃ ms, List.Forall₂ (fun r m => e.amount (s.value r) = some m) members ms ∧ n = ms.sum

/-- That a row shows the values that references have in all rows of a group, and then the totals
of the group. -/
def IsGroupRow (s : Scope) (columns : List ColumnRef) (sums : List Expr) (members : List Row)
    (o : Row) : Prop :=
  ∃ shown totals, o.fields = shown ++ totals.map Integer.toText ∧
    (∀ r ∈ members, shown.map some = valuesIn s columns r) ∧
      List.Forall₂ (IsTotal s members) sums totals

/-- That rows are those of the groups of others: one for each tuple of key values, in the order in
which the tuples are first met.  Without keys and columns there is a row of zeros at least. -/
def IsGrouping (s : Scope) (keys columns : List ColumnRef) (sums : List Expr)
    (rows out : List Row) : Prop :=
  if rows = [] ∧ keys = [] ∧ columns = [] then
    out = [⟨sums.map fun _ => Integer.toText 0⟩]
  else
    List.Forall₂
      (fun key o => IsGroupRow s columns sums (rows.filter fun r => valuesIn s keys r = key) o)
      (rows.map (valuesIn s keys)).eraseDups out

/-- That rows are what a SELECT list, with GROUP BY, makes of the rows of joined tables. -/
inductive Chosen (tables : List Table) : List SelectItem → List Expr → List Row → List Row → Prop
  /-- A star keeps the rows. -/
  | star (rows : List Row) : Chosen tables [.star] [] rows rows
  /-- The star of the only table does so too. -/
  | onlyStar {name : String} {t : Table} (ht : tables = [t]) (hname : t.name = Name.canonical name)
      (rows : List Row) : Chosen tables [.tableStar name] [] rows rows
  /-- The star of one of several tables keeps the columns of that table. -/
  | tableStar {name : String} {t : Table} {rows out : List Row} (hmany : tables.length ≠ 1)
      (ht : tables.find? (·.name == Name.canonical name) = some t)
      (h : Restricted (.ofTables tables) (columnsOf t) rows out) :
      Chosen tables [.tableStar name] [] rows out
  /-- Columns alone are kept, in their order and as often as they are listed. -/
  | columns {columns : List ColumnRef} {rows out : List Row}
      (h : Restricted (.ofTables tables) columns rows out) :
      Chosen tables (columns.map fun c => .expr (.column c)) [] rows out
  /-- With sums or GROUP BY, rows are grouped by the columns of GROUP BY, or else by all that are
  listed. -/
  | groups {columns keys : List ColumnRef} {calls sums : List Expr} {rows out : List Row}
      (hsome : calls ≠ [] ∨ keys ≠ [])
      (hcalls : List.Forall₂ (fun call e => ∃ name, call = .call name [.expr e] ∧
        Name.canonical name = "sum") calls sums)
      (h : IsGrouping (.ofTables tables) (if keys = [] then columns else keys) columns sums rows
        out) :
      Chosen tables (columns.map (fun c => .expr (.column c)) ++ calls.map .expr)
        (keys.map .column) rows out

/-- That rows are others in the order that ORDER BY asks for, its items found among labels. -/
def Arranged (items : List OrderItem) (labels : List String) (rows out : List Row) : Prop :=
  if items.isEmpty then out = rows
  else ∃ keys, orderKeys items labels = .ok keys ∧ out.Perm rows ∧
    out.Pairwise (InOrder (keys.map sortKey))

/-- That a plan, set up and run to its end, hands out some rows and does not fail. -/
def HandsOut (fs : Files) (p : Plan) (rows : List Row) : Prop :=
  ∃ c, p.instantiate fs = .ok c ∧ (c.drain fs).1 = rows ∧ (c.drain fs).2.1 = none

/-! ### One stage at a time -/

section Stages

variable {fs : Files} {p : Plan} {out : List Row}

theorem handsOut_iff {rows : List Row} : HandsOut fs p rows ↔ ∃ op s, p.bound = .ok op ∧
    op.start? fs = .ok s ∧ (op.yield fs).rows = rows ∧ (op.yield fs).error = none := by
  constructor
  · rintro ⟨c, hc, hrows, herror⟩
    obtain ⟨hbound, hstart⟩ := bound_of_instantiate hc
    have hdrain := Cursor.drain_of_start hstart
    exact ⟨c.op, c.state, hbound, hstart, hdrain ▸ hrows, hdrain ▸ herror⟩
  · rintro ⟨op, s, hbound, hstart, hrows, herror⟩
    have hdrain := @Cursor.drain_of_start fs ⟨op, s⟩ hstart
    rw [← hdrain] at hrows herror
    exact ⟨⟨op, s⟩, instantiate_of_bound hbound hstart, hrows, herror⟩

theorem HandsOut.unique {rows rows' : List Row} (h : HandsOut fs p rows)
    (h' : HandsOut fs p rows') : rows = rows' := by
  obtain ⟨c, hc, hrows, -⟩ := h
  obtain ⟨c', hc', hrows', -⟩ := h'
  obtain rfl : c = c' := Except.ok.inj (hc.symm.trans hc')
  exact hrows.symm.trans hrows'

theorem ofRows_eq {outcome : Except Rows.Error (List Row)}
    (hrows : (Yield.ofRows outcome).rows = out) (herror : (Yield.ofRows outcome).error = none) :
    outcome = .ok out := by
  cases outcome with
  | error e => cases herror
  | ok rows => exact congrArg Except.ok hrows

theorem HandsOut.sort {keys : List OrderKey} (h : HandsOut fs (.sort p keys) out) :
    ∃ rows, HandsOut fs p rows ∧ sortRows (keys.map sortKey) rows = .ok out := by
  obtain ⟨op, s, hbound, hstart, hrows, herror⟩ := handsOut_iff.mp h
  obtain ⟨input, hinput, hbound⟩ := bind_eq_ok_iff.mp hbound
  cases hbound
  obtain ⟨s', hs', -⟩ := bind_eq_ok_iff.mp hstart
  obtain ⟨hnone, hsort⟩ := gatheredRows_sorting.mp (ofRows_eq hrows herror)
  exact ⟨_, handsOut_iff.mpr ⟨input, s', hinput, hs', rfl, hnone⟩, hsort⟩

theorem HandsOut.distinct (h : HandsOut fs (.distinct p) out) :
    ∃ rows, HandsOut fs p rows ∧ out = rows.eraseDups := by
  obtain ⟨op, s, hbound, hstart, hrows, herror⟩ := handsOut_iff.mp h
  obtain ⟨input, hinput, hbound⟩ := bind_eq_ok_iff.mp hbound
  cases hbound
  obtain ⟨s', hs', -⟩ := bind_eq_ok_iff.mp hstart
  obtain ⟨hnone, hdistinct⟩ := gatheredRows_deduplicating.mp (ofRows_eq hrows herror)
  exact ⟨_, handsOut_iff.mpr ⟨input, s', hinput, hs', rfl, hnone⟩, hdistinct⟩

theorem pick_of_bind_picked {indexes : List Nat} {y : Yield}
    (h : (y.bind (picked indexes)).error = none) : y.error = none ∧
      List.Forall₂ (fun r o => r.pick indexes = .ok o) y.rows (y.bind (picked indexes)).rows := by
  obtain ⟨hy, hall⟩ := Yield.bind_error.mp h
  obtain ⟨rows, e⟩ := y
  obtain rfl : e = none := hy
  refine ⟨rfl, ?_⟩
  clear h
  induction rows with
  | nil => exact .nil
  | cons r rows ih =>
    obtain ⟨hr, hrows⟩ := List.forall_mem_cons.mp hall
    have hcons : (Yield.mk (r :: rows) none).bind (picked indexes) =
        (picked indexes r).append ((Yield.mk rows none).bind (picked indexes)) := rfl
    rw [hcons]
    unfold picked at hr ⊢
    cases ho : r.pick indexes with
    | error e =>
      rw [ho] at hr
      cases hr
    | ok o => exact .cons ho (ih hrows)

/-- The values of references are the fields at the indexes that they are resolved to. -/
theorem valuesIn_of_resolve {s : Scope} {columns : List ColumnRef} {indexes : List Nat}
    (h : columns.mapM s.resolve = .ok indexes) (r : Row) :
    valuesIn s columns r = fieldsAt indexes r := by
  have hresolve := mapM_eq_ok_iff.mp h
  clear h
  induction hresolve with
  | nil => rfl
  | @cons c i columns indexes hi _ ih =>
    have hvalue : s.value r c = r.fields[i]? := by
      simp only [Scope.value, hi, toOption_ok, Option.bind_some]
    simp only [valuesIn, fieldsAt, List.map_cons, hvalue]
    exact congrArg (r.fields[i]? :: ·) ih

theorem HandsOut.project {columns : List ColumnRef} (h : HandsOut fs (.project p columns) out) :
    ∃ rows, HandsOut fs p rows ∧ Restricted (.ofTables p.tables) columns rows out := by
  obtain ⟨op, s, hbound, hstart, hrows, herror⟩ := handsOut_iff.mp h
  obtain ⟨input, hinput, hbound⟩ := bind_eq_ok_iff.mp hbound
  obtain ⟨indexes, hindexes, hbound⟩ := bind_eq_ok_iff.mp hbound
  cases hbound
  obtain ⟨hnone, hpicked⟩ := pick_of_bind_picked herror
  refine ⟨_, handsOut_iff.mpr ⟨input, s, hinput, hstart, rfl, hnone⟩, ?_⟩
  subst hrows
  refine hpicked.imp ?_
  intro r o ho
  rw [valuesIn_of_resolve hindexes]
  exact fieldsAt_of_pick ho

/-- References have the same values in two rows that agree on more of them. -/
theorem valuesIn_eq_of_subset {s : Scope} {columns keys : List ColumnRef} {r r' : Row}
    (hsub : ∀ c ∈ columns, c ∈ keys) (h : valuesIn s keys r = valuesIn s keys r') :
    valuesIn s columns r = valuesIn s columns r' :=
  List.map_congr_left fun c hc => List.map_inj_left.mp h c (hsub c hc)

theorem isTotal_of_isSum {s : Scope} {members : List Row} {es : List Expr} {ts : List Term}
    {ns : List Int} (hes : es.mapM s.bind = .ok ts) (h : List.Forall₂ (IsSum members) ts ns) :
    List.Forall₂ (IsTotal s members) es ns := by
  have hbind := mapM_eq_ok_iff.mp hes
  clear hes
  induction hbind generalizing ns with
  | nil =>
    cases h
    exact .nil
  | @cons e t es ts ht _ ih =>
    cases h with
    | cons hn hns =>
      obtain ⟨ms, hms, hsum⟩ := hn
      exact .cons ⟨ms, hms.imp fun r m hm => Scope.amount_of_summand ht hm, hsum⟩ (ih hns)

/-- What a group holds is what its row shows, and each of its rows agrees with it. -/
theorem isGroupRow_of_totals {s : Scope} {keys columns : List ColumnRef} {sums : List Expr}
    {spec : GroupSpec} {members : List Row} {g : Group} {key : List (Option String)}
    (hshown : columns.mapM s.resolve = .ok spec.shown) (hsums : sums.mapM s.bind = .ok spec.sums)
    (hsub : ∀ c ∈ columns, c ∈ keys) (hmembers : ∀ r ∈ members, valuesIn s keys r = key)
    (h : Totals spec members g) : IsGroupRow s columns sums members g.toRow := by
  obtain ⟨⟨r, hr, hfields⟩, htotals⟩ := h
  refine ⟨g.shown, g.sums, rfl, ?_, isTotal_of_isSum hsums htotals⟩
  intro r' hr'
  rw [hfields, ← valuesIn_of_resolve hshown]
  exact valuesIn_eq_of_subset hsub ((hmembers r hr).trans (hmembers r' hr').symm)

theorem isGrouping_of_summary {s : Scope} {keys columns : List ColumnRef} {sums : List Expr}
    {spec : GroupSpec} {rows : List Row} {groups : List Group}
    (hkeys : keys.mapM s.resolve = .ok spec.group)
    (hshown : columns.mapM s.resolve = .ok spec.shown) (hsums : sums.mapM s.bind = .ok spec.sums)
    (hsub : ∀ c ∈ columns, c ∈ keys) (h : Summary spec rows groups) :
    IsGrouping s keys columns sums rows (spec.rows groups) := by
  have hempty : (groups.isEmpty && spec.group.isEmpty && spec.shown.isEmpty) = true ↔
      rows = [] ∧ keys = [] ∧ columns = [] := by
    rw [Bool.and_eq_true, Bool.and_eq_true, List.isEmpty_iff, List.isEmpty_iff, List.isEmpty_iff,
      h.eq_nil_iff, eq_nil_iff_of_mapM hkeys, eq_nil_iff_of_mapM hshown, and_assoc]
  unfold IsGrouping GroupSpec.rows
  by_cases hzero : rows = [] ∧ keys = [] ∧ columns = []
  · rw [if_pos hzero, if_pos (hempty.mpr hzero), Group.toRow, GroupSpec.zeros,
      ← (mapM_eq_ok_iff.mp hsums).length_eq, List.map_replicate, List.map_const', List.nil_append]
  · rw [if_neg hzero, if_neg fun he => hzero (hempty.mp he)]
    have hvalues : valuesIn s keys = fieldsAt spec.group :=
      funext fun r => valuesIn_of_resolve hkeys r
    rw [hvalues, ← h.keys, List.forall₂_map_left_iff, List.forall₂_map_right_iff,
      List.forall₂_same]
    exact fun g hg => isGroupRow_of_totals hshown hsums hsub (fun r hr => by
      rw [hvalues]
      exact of_decide_eq_true (List.mem_filter.mp hr).2) (h.totals g hg)

theorem HandsOut.gathered {keys columns : List ColumnRef} {sums : List Expr}
    {labels : List String} (h : HandsOut fs (.groupSum p keys columns sums labels) out) :
    ∃ rows spec, HandsOut fs p rows ∧
      keys.mapM (Scope.ofTables p.tables).resolve = .ok spec.group ∧
      columns.mapM (Scope.ofTables p.tables).resolve = .ok spec.shown ∧
      sums.mapM (Scope.ofTables p.tables).bind = .ok spec.sums ∧
      gatheredRows (grouping spec) (.ofList rows) = .ok out := by
  obtain ⟨op, s, hbound, hstart, hrows, herror⟩ := handsOut_iff.mp h
  obtain ⟨input, hinput, hbound⟩ := bind_eq_ok_iff.mp hbound
  obtain ⟨group, hgroup, hbound⟩ := bind_eq_ok_iff.mp hbound
  obtain ⟨shown, hshown, hbound⟩ := bind_eq_ok_iff.mp hbound
  obtain ⟨terms, hterms, hbound⟩ := bind_eq_ok_iff.mp hbound
  cases hbound
  obtain ⟨s', hs', -⟩ := bind_eq_ok_iff.mp hstart
  obtain ⟨hnone, hgathered⟩ := gatheredRows_rows (ofRows_eq hrows herror)
  exact ⟨_, ⟨group, shown, terms⟩, handsOut_iff.mpr ⟨input, s', hinput, hs', rfl, hnone⟩,
    hgroup, hshown, hterms, hgathered⟩

theorem HandsOut.groupSum {keys columns : List ColumnRef} {sums : List Expr}
    {labels : List String} (h : HandsOut fs (.groupSum p keys columns sums labels) out)
    (hsub : ∀ c ∈ columns, c ∈ keys) :
    ∃ rows, HandsOut fs p rows ∧
      IsGrouping (.ofTables p.tables) keys columns sums rows out := by
  obtain ⟨rows, spec, hrows, hkeys, hshown, hsums, hgathered⟩ := h.gathered
  obtain ⟨-, groups, hsummary, rfl⟩ := gatheredRows_grouping hgathered
  exact ⟨rows, hrows, isGrouping_of_summary hkeys hshown hsums hsub hsummary⟩

/-! ### All stages -/

theorem valuesIn_canonical (s : Scope) (columns : List ColumnRef) :
    valuesIn s (columns.map (·.canonical)) = valuesIn s columns := by
  funext r
  unfold valuesIn
  rw [List.map_map]
  exact List.map_congr_left fun c _ => Scope.value_canonical s r c

theorem isGrouping_canonical {s : Scope} {keys columns : List ColumnRef} {sums : List Expr}
    {rows : List Row}
    (h : IsGrouping s (keys.map (·.canonical)) (columns.map (·.canonical)) sums rows out) :
    IsGrouping s keys columns sums rows out := by
  unfold IsGrouping IsGroupRow at *
  simpa only [valuesIn_canonical, List.map_eq_nil_iff] using h

theorem HandsOut.grouped {columns keys : List ColumnRef} {calls : List Expr}
    {aggregates : List Aggregate} {input : Plan}
    (hcalls : List.Forall₂ (fun e a => SelectList.aggregate? e = .ok (some a)) calls aggregates)
    (hsub : keys = [] ∨ ∀ c ∈ columns.map (·.canonical), c ∈ keys.map (·.canonical))
    (hsome : calls ≠ [] ∨ keys ≠ [])
    (hp : grouped input (columns.map (·.canonical)) (keys.map (·.canonical)) aggregates = .ok p)
    (h : HandsOut fs p out) :
    ∃ rows, HandsOut fs input rows ∧
      Chosen input.tables (columns.map (fun c => .expr (.column c)) ++ calls.map .expr)
        (keys.map .column) rows out := by
  obtain ⟨⟨sums, labels⟩, hsums, hp⟩ := bind_eq_ok_iff.mp hp
  cases hp
  have hif : (if (keys.map (·.canonical)).isEmpty then columns.map (·.canonical)
      else keys.map (·.canonical)) =
        (if keys = [] then columns else keys).map (·.canonical) := by
    cases keys <;> rfl
  rw [hif] at h
  have hkeys : ∀ c ∈ columns.map (·.canonical),
      c ∈ (if keys = [] then columns else keys).map (·.canonical) := by
    intro c hc
    split
    · exact hc
    · exact (hsub.resolve_left ‹_›) c hc
  obtain ⟨rows, hrows, hout⟩ := h.groupSum hkeys
  have hreads := SelectList.calls_of_sumsOf hcalls hsums
  exact ⟨rows, hrows, .groups hsome hreads (isGrouping_canonical hout)⟩

theorem HandsOut.selected {items : List SelectItem} {groupBy : List Expr} {list : SelectList}
    {tables : List Table} {input : Plan} (hlist : SelectList.Reads items groupBy list)
    (hp : selected list tables input = .ok p) (htables : input.tables = tables)
    (h : HandsOut fs p out) :
    ∃ rows, HandsOut fs input rows ∧ Chosen tables items groupBy rows out := by
  subst htables
  cases hlist with
  | star =>
    cases hp
    exact ⟨out, h, .star out⟩
  | tableStar name =>
    simp only [Plan.selected] at hp
    split at hp
    · cases hp
    · rename_i t ht
      cases hp
      by_cases hone : input.tables.length = 1
      · rw [if_pos hone] at h
        obtain ⟨u, hu⟩ := List.length_eq_one_iff.mp hone
        rw [hu, List.find?_singleton] at ht
        split at ht
        · rename_i hname
          exact ⟨out, h, .onlyStar hu (beq_iff_eq.mp hname) out⟩
        · cases ht
      · rw [if_neg hone] at h
        obtain ⟨rows, hrows, hout⟩ := h.project
        exact ⟨rows, hrows, .tableStar hone ht hout⟩
  | @listed columns keys calls aggregates hcalls hsub =>
    simp only [Plan.selected] at hp
    split at hp
    · -- there are sums or GROUP BY
      rename_i hgrouped
      have hsome : calls ≠ [] ∨ keys ≠ [] := by
        cases hcalls with
        | cons _ _ => exact .inl (List.cons_ne_nil _ _)
        | nil =>
          cases keys with
          | cons k keys => exact .inr (List.cons_ne_nil k keys)
          | nil => cases hgrouped
      exact HandsOut.grouped hcalls hsub hsome hp h
    · rename_i hplain
      cases hp
      obtain ⟨rows, hrows, hout⟩ := h.project
      cases hcalls with
      | cons _ _ => exact absurd rfl hplain
      | nil =>
        cases keys with
        | cons k keys => exact absurd rfl hplain
        | nil =>
          rw [Restricted, valuesIn_canonical] at hout
          rw [List.map_nil, List.append_nil]
          exact ⟨rows, hrows, .columns hout⟩

theorem HandsOut.deduplicated {distinct : Bool} (h : HandsOut fs (deduplicated distinct p) out) :
    ∃ rows, HandsOut fs p rows ∧ out = if distinct then rows.eraseDups else rows := by
  cases distinct with
  | true => exact h.distinct
  | false => exact ⟨out, h, rfl⟩

theorem HandsOut.ordered {items : List OrderItem} {q : Plan} (hq : ordered items p = .ok q)
    (h : HandsOut fs q out) :
    q.labels = p.labels ∧ ∃ rows, HandsOut fs p rows ∧ Arranged items p.labels rows out := by
  unfold Plan.ordered at hq
  unfold Arranged
  split at hq
  · rename_i hempty
    cases hq
    exact ⟨rfl, out, h, by rw [if_pos hempty]⟩
  · rename_i hsome
    obtain ⟨keys, hkeys, hq⟩ := bind_eq_ok_iff.mp hq
    cases hq
    obtain ⟨rows, hrows, hsort⟩ := h.sort
    refine ⟨rfl, rows, hrows, ?_⟩
    rw [if_neg hsome]
    exact ⟨keys, hkeys, perm_and_pairwise_of_sortRows hsort⟩

end Stages

/-- **What a query answers.**  A query that has been planned and runs to its end without a failure
hands out what its stages make of the rows for FROM and WHERE. -/
theorem drain_prepare {fs : Files} {catalog : Catalog} {q : Select} {p : Prepared}
    (hp : prepare fs catalog q = .ok p) (hend : (p.cursor.drain fs).2.1 = none) :
    ∃ tables plan rows chosen, sourceTables catalog [] q.sources = .ok tables ∧
      base tables q.condition = .ok plan ∧ HandsOut fs plan rows ∧
      Chosen tables q.items q.groupBy rows chosen ∧
      Arranged q.orderBy p.labels (if q.distinct then chosen.eraseDups else chosen)
        (p.cursor.drain fs).1 := by
  obtain ⟨whole, hwhole, hp⟩ := bind_eq_ok_iff.mp hp
  split at hp
  · rename_i cursor hcursor
    cases hp
    obtain ⟨list, hlist, hwhole⟩ := bind_eq_ok_iff.mp hwhole
    split at hwhole
    · cases hwhole
    · obtain ⟨tables, htables, hwhole⟩ := bind_eq_ok_iff.mp hwhole
      obtain ⟨plan, hplan, hwhole⟩ := bind_eq_ok_iff.mp hwhole
      obtain ⟨middle, hmiddle, hwhole⟩ := bind_eq_ok_iff.mp hwhole
      have hout : HandsOut fs whole (cursor.drain fs).1 := ⟨cursor, hcursor, rfl, hend⟩
      obtain ⟨hlabels, once, honce, harranged⟩ := hout.ordered hwhole
      obtain ⟨chosen, hchosen, rfl⟩ := honce.deduplicated
      obtain ⟨rows, hrows, hselected⟩ := hchosen.selected (SelectList.reads_of_analyse hlist)
        hmiddle (tables_of_base hplan)
      exact ⟨tables, plan, rows, chosen, htables, hplan, hrows, hselected, hlabels ▸ harranged⟩
  · cases hp

def sampleCatalog : Catalog where
  tables := [Sample.pupils, Sample.marks]
  index := [("pupils", 1), ("marks", 2)]
  lastId := 2

def sampleQuery : Select where
  distinct := true
  items := [.expr (.column { column := "ID" }),
    .expr (.call "SUM" [.expr (.column { column := "mark" })])]
  sources := [.table "Pupils", .table "marks"]
  condition := some Sample.matching

def samplePrepared : Prepared where
  plan := .distinct (.groupSum
    (.join (.scan Sample.pupils) (.scan Sample.marks)
      (some (.binary (.column { table := some "pupils", column := "id" }) .equal
        (.column { table := some "marks", column := "pupil" }))))
    [{ column := "id" }] [{ column := "id" }] [.column { column := "mark" }] ["sum(mark)"])
  labels := ["id", "sum(mark)"]
  cursor :=
    { op := .distinct (.groupSum
        (.join (.scan Sample.pupils) (.scan Sample.marks)
          (some (.binary (.field 0 "pupils.id") .equal (.field 2 "marks.pupil"))))
        { group := [0], shown := [0], sums := [.field 3 "mark"] })
      state :=
        { input := { input := { left := { node := .file 0 }, right := { node := .file 1 } } } } }

/-- The marks 3 and 3 of the first pupil, and the mark 1 of the second. -/
theorem drain_prepare_sample :
    (prepare Sample.files sampleCatalog sampleQuery = .ok samplePrepared ∧
      (samplePrepared.cursor.drain Sample.files).2.1 = none ∧
      (samplePrepared.cursor.drain Sample.files).1 = [⟨["1", "6"]⟩, ⟨["2", "1"]⟩]) ∧
    ∃ tables plan rows chosen,
      sourceTables sampleCatalog [] sampleQuery.sources = .ok tables ∧
      base tables sampleQuery.condition = .ok plan ∧ HandsOut Sample.files plan rows ∧
      Chosen tables sampleQuery.items sampleQuery.groupBy rows chosen ∧
      Arranged sampleQuery.orderBy samplePrepared.labels
        (if sampleQuery.distinct then chosen.eraseDups else chosen)
        (samplePrepared.cursor.drain Sample.files).1 := by
  have hprepare : prepare Sample.files sampleCatalog sampleQuery = .ok samplePrepared := rfl
  have hdrain := @Cursor.drain_of_start Sample.files samplePrepared.cursor rfl
  have hend : (samplePrepared.cursor.drain Sample.files).2.1 = none :=
    (congrArg Yield.error hdrain).trans (by decide)
  have hrows : (samplePrepared.cursor.drain Sample.files).1 = [⟨["1", "6"]⟩, ⟨["2", "1"]⟩] :=
    (congrArg Yield.rows hdrain).trans (by decide)
  exact ⟨⟨hprepare, hend, hrows⟩, drain_prepare hprepare hend⟩

end FlatQuery.Plan
