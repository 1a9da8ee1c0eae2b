import FlatQuery.Proofs.Plan.Prepared
import FlatQuery.Proofs.Rows.GroupSums
import FlatQuery.Proofs.Rows.Written

/-!
# Grouping without sums

A query that groups by the columns it selects, and sums nothing, asks for each tuple of values once:
what `SELECT DISTINCT` asks for, too.  The two are answered by different machines, one of which
keeps a group for each key and shows fields of its first row, while the other cuts the rows down
first and then drops those it has seen.  As the fields of the key and those shown determine each
other (`ShowsKey.eq_iff`), the groups come in the order of the rows that are kept
(`gatheredRows_plain_iff`), and the queries have the same answers (`grouped_prepared_iff`,
`group_by_is_distinct`).
-/

namespace FlatQuery.Rows

open Outcome
open Plan (pick_of_bind_picked)

/-! ### Dropping repetitions along a relation -/

/-- If related members are equal on one side exactly where they are on the other, dropping
repetitions keeps lists related. -/
theorem forall₂_eraseDups {α β : Type} [BEq α] [LawfulBEq α] [BEq β] [LawfulBEq β]
    {R : α → β → Prop} (hR : ∀ {a b a' b'}, R a b → R a' b' → (a = a' ↔ b = b')) {xs : List α} :
    ∀ {ys : List β}, List.Forall₂ R xs ys → List.Forall₂ R xs.eraseDups ys.eraseDups := by
  induction hn : xs.length using Nat.strongRecOn generalizing xs with
  | ind n ih =>
    intro ys h
    cases h with
    | nil => exact .nil
    | @cons a b xs ys hab hrest =>
      have hkept : Relator.LiftFun R (· ↔ ·) (fun a' => (!a' == a) = true)
          fun b' => (!b' == b) = true := by
        intro a' b' hab'
        simp [hR hab' hab]
      have hfilter : List.Forall₂ R (xs.filter (!· == a)) (ys.filter (!· == b)) :=
        List.rel_filter hkept hrest
      rw [List.eraseDups_cons, List.eraseDups_cons]
      refine .cons hab (ih _ ?_ rfl hfilter)
      rw [← hn]
      exact Nat.lt_succ_of_le (List.length_filter_le _ _)

/-! ### Groups without sums -/

variable {spec : GroupSpec} {rows shown out : List Row} {y : Yield}

/-- That a key and an output row come from one of the rows: its grouping fields, and the fields of
it that are shown. -/
def ShowsKey (spec : GroupSpec) (rows : List Row) (key : List (Option String)) (o : Row) : Prop :=
  ∃ r ∈ rows, fieldsAt spec.group r = key ∧ r.pick spec.shown = .ok o

theorem fieldsAt_eq_iff {indexes : List Nat} {r r' : Row} :
    fieldsAt indexes r = fieldsAt indexes r' ↔ ∀ i ∈ indexes, r.fields[i]? = r'.fields[i]? :=
  List.map_inj_left

/-- Where the same fields are grouped by and shown, keys are equal exactly if the rows shown are. -/
theorem ShowsKey.eq_iff (hsame : ∀ i, i ∈ spec.group ↔ i ∈ spec.shown)
    {key key' : List (Option String)} {o o' : Row} (h : ShowsKey spec rows key o)
    (h' : ShowsKey spec rows key' o') : key = key' ↔ o = o' := by
  obtain ⟨r, -, rfl, ho⟩ := h
  obtain ⟨r', -, rfl, ho'⟩ := h'
  have hfields : o = o' ↔ fieldsAt spec.shown r = fieldsAt spec.shown r' := by
    rw [← fieldsAt_of_pick ho, ← fieldsAt_of_pick ho', map_some_inj, Row.mk.injEq]
  simp only [hfields, fieldsAt_eq_iff, hsame]

theorem bind_picked_of_forall₂ {indexes : List Nat}
    (h : List.Forall₂ (fun r o => r.pick indexes = .ok o) rows shown) :
    (Yield.ofList rows).bind (picked indexes) = .ofList shown := by
  induction h with
  | nil => rfl
  | @cons r o rows shown ho _ ih =>
    show (picked indexes r).append ((Yield.ofList rows).bind (picked indexes)) = _
    rw [ih, picked, ho]
    rfl

theorem eq_eraseDups_of_grouped (hsums : spec.sums = [])
    (hsame : ∀ i, i ∈ spec.group ↔ i ∈ spec.shown) (hsome : spec.shown ≠ [])
    (hshown : List.Forall₂ (fun r o => r.pick spec.shown = .ok o) rows shown)
    (h : spec.Grouped rows out) : out = shown.eraseDups := by
  have hinj : ∀ {key key' o o'}, ShowsKey spec rows key o → ShowsKey spec rows key' o' →
      (key = key' ↔ o = o') := fun hkey hkey' => hkey.eq_iff hsame hkey'
  -- a group shows its first row
  have hgroups : List.Forall₂ (ShowsKey spec rows)
      (rows.map (fieldsAt spec.group)).eraseDups out := by
    rw [GroupSpec.Grouped, if_neg fun hzero => hsome hzero.2.2] at h
    refine h.imp ?_
    rintro key o ⟨first, rest, picked, sums, hmembers, hpick, htotals, ho⟩
    have hfirst : first ∈ membersOf spec rows key := hmembers ▸ List.mem_cons_self ..
    obtain ⟨hmem, hkey⟩ := List.mem_filter.mp hfirst
    have hnone : sums = [] := by
      rw [hsums] at htotals
      cases htotals
      rfl
    have hfields : o = picked := by
      rw [Row.mk.injEq, ho, hnone, List.map_nil, List.append_nil]
    exact ⟨first, hmem, of_decide_eq_true hkey, hfields ▸ hpick⟩
  have hkept : List.Forall₂ (ShowsKey spec rows)
      (rows.map (fieldsAt spec.group)).eraseDups shown.eraseDups := by
    refine forall₂_eraseDups hinj (List.forall₂_map_left_iff.mpr ?_)
    refine ((List.forall₂_and_left rows shown).mpr ⟨fun _ hr => hr, hshown⟩).imp ?_
    rintro r o ⟨hr, ho⟩
    exact ⟨r, hr, rfl, ho⟩
  have hunique : Relator.RightUnique (ShowsKey spec rows) :=
    fun _ _ _ hkey hkey' => (hinj hkey hkey').mp rfl
  exact List.right_unique_forall₂' hunique hgroups hkept

theorem takes_plain_iff (hsums : spec.sums = []) (hsame : ∀ i, i ∈ spec.group ↔ i ∈ spec.shown) :
    spec.Takes rows ↔ ∀ r ∈ rows, ∃ o, r.pick spec.shown = .ok o := by
  simp only [exists_pick_iff]
  constructor
  · intro htakes r hr i hi
    obtain ⟨before, after, hrows⟩ := List.append_of_mem hr
    by_contra hwidth
    exact htakes before r after hrows _ (.key ((hsame i).mpr hi) (Nat.not_lt.mp hwidth))
  · intro hwidth before row after hrows e hstops
    have hrow : row ∈ rows := hrows ▸ List.mem_append_right _ (List.mem_cons_self ..)
    cases hstops with
    | key hi hmissing =>
      exact absurd (hwidth row hrow _ ((hsame _).mp hi)) (Nat.not_lt.mpr hmissing)
    | shown _ hi hmissing => exact absurd (hwidth row hrow _ hi) (Nat.not_lt.mpr hmissing)
    | summand ht _ =>
      rw [hsums] at ht
      cases ht
    | range ht _ _ =>
      rw [hsums] at ht
      cases ht

/-- Grouping without sums gathers what is left of the rows shown when repetitions are dropped. -/
theorem gatheredRows_plain_iff (hsums : spec.sums = [])
    (hsame : ∀ i, i ∈ spec.group ↔ i ∈ spec.shown) (hsome : spec.shown ≠ []) :
    gatheredRows (grouping spec) y = .ok out ↔
      gatheredRows deduplicating (y.bind (picked spec.shown)) = .ok out := by
  rw [gatheredRows_deduplicating]
  constructor
  · intro h
    have herror := (gatheredRows_eq_ok_iff.mp h).1
    obtain ⟨rows, e⟩ := y
    obtain rfl : e = none := herror
    rcases gatheredRows_grouping_cases spec rows with ⟨out', hout, hgrouped, htakes⟩ |
      ⟨e, before, row, after, hfails, -⟩
    · obtain rfl : out = out' := Except.ok.inj (h.symm.trans hout)
      obtain ⟨shown, hshown⟩ := exists_mapM_iff.mpr ((takes_plain_iff hsums hsame).mp htakes)
      rw [mapM_eq_ok_iff] at hshown
      have hbind : (Yield.mk rows none).bind (picked spec.shown) = .ofList shown :=
        bind_picked_of_forall₂ hshown
      rw [hbind]
      exact ⟨rfl, eq_eraseDups_of_grouped hsums hsame hsome hshown hgrouped⟩
    · cases h.symm.trans hfails
  · rintro ⟨herror, rfl⟩
    obtain ⟨hnone, hshown⟩ := pick_of_bind_picked herror
    obtain ⟨rows, e⟩ := y
    obtain rfl : e = none := hnone
    have htakes := (takes_plain_iff hsums hsame).mpr
      (exists_mapM_iff.mp ⟨_, mapM_eq_ok_iff.mpr hshown⟩)
    rcases gatheredRows_grouping_cases spec rows with ⟨out, hout, hgrouped, -⟩ |
      ⟨e, before, row, after, -, hrows, -, hstops⟩
    · rw [← eq_eraseDups_of_grouped hsums hsame hsome hshown hgrouped]
      exact hout
    · exact absurd hstops (htakes before row after hrows e)

/-- The two machines hand out the rows shown, each once, or they both fail. -/
theorem yield_plain {σ : Type} (m : Machine σ) (fs : Files) (x : σ) (hsums : spec.sums = [])
    (hsame : ∀ i, i ∈ spec.group ↔ i ∈ spec.shown) (hsome : spec.shown ≠ []) :
    (∃ rows shown, m.yield fs x = .ofList rows ∧
      List.Forall₂ (fun r o => r.pick spec.shown = .ok o) rows shown ∧
      (gathered m (grouping spec)).yield fs ⟨x, .pending⟩ = .ofList shown.eraseDups ∧
      (gathered (projected m spec.shown) deduplicating).yield fs ⟨x, .pending⟩ =
        .ofList shown.eraseDups) ∨
    ∃ e e', (gathered m (grouping spec)).yield fs ⟨x, .pending⟩ = .fail e ∧
      (gathered (projected m spec.shown) deduplicating).yield fs ⟨x, .pending⟩ = .fail e' := by
  simp only [yield_gathered, yield_projected]
  have hiff := fun out => @gatheredRows_plain_iff spec out (m.yield fs x) hsums hsame hsome
  cases hgroups : gatheredRows (grouping spec) (m.yield fs x) with
  | ok out =>
    left
    have hdistinct := (hiff out).mp hgroups
    obtain ⟨herror, hout⟩ := gatheredRows_deduplicating.mp hdistinct
    obtain ⟨hnone, hshown⟩ := pick_of_bind_picked herror
    refine ⟨_, _, congrArg (Yield.mk _) hnone, hshown, ?_, ?_⟩
    · rw [← hout]
      rfl
    · rw [hdistinct, ← hout]
      rfl
  | error e =>
    right
    cases hdistinct : gatheredRows deduplicating ((m.yield fs x).bind (picked spec.shown)) with
    | ok out => cases hgroups.symm.trans ((hiff out).mpr hdistinct)
    | error e' => exact ⟨e, e', rfl, rfl⟩

end FlatQuery.Rows

namespace FlatQuery

open Rows Outcome

/-! ### Reading plain columns -/

namespace SelectList

variable {columns keys : List ColumnRef}

theorem groupColumns_columns (keys : List ColumnRef) :
    groupColumns (keys.map .column) = .ok (keys.map (·.canonical)) := by
  induction keys with
  | nil => rfl
  | cons c keys ih =>
    rw [List.map_cons, groupColumns, ih]
    rfl

theorem split_columns (withAggregates : Bool) (columns : List ColumnRef) :
    split withAggregates false (columns.map fun c => .expr (.column c)) =
      .ok (columns.map (·.canonical), []) := by
  induction columns with
  | nil => rfl
  | cons c columns ih =>
    have hnone : aggregate? (.column c) = .ok none := rfl
    rw [List.map_cons, split, hnone]
    simp only [ok_bind, ih]
    rfl

/-- Columns are accepted if there is no GROUP BY, or if all of them are grouped by. -/
theorem analyse_columns (hsome : columns ≠ [])
    (hsub : keys = [] ∨ ∀ c ∈ columns.map (·.canonical), c ∈ keys.map (·.canonical)) :
    analyse (columns.map fun c => .expr (.column c)) (keys.map .column) =
      .ok (.listed (columns.map (·.canonical)) (keys.map (·.canonical)) []) := by
  obtain ⟨c, cs, rfl⟩ := List.exists_cons_of_ne_nil hsome
  have hsplit : ∀ withAggregates, split withAggregates false
      (.expr (.column c) :: cs.map fun c => .expr (.column c)) =
        .ok ((c :: cs).map (·.canonical), []) := fun b => split_columns b (c :: cs)
  rw [List.map_cons, analyse, groupColumns_columns]
  simp only [ok_bind, starTable?, hsplit]
  cases hfind : ((c :: cs).map (·.canonical)).find? (!(keys.map (·.canonical)).contains ·) with
  | none => rfl
  | some missing =>
    rcases hsub with rfl | hsub
    · rfl
    · have hmissing := List.find?_some hfind
      have hmem := hsub missing (List.mem_of_find?_eq_some hfind)
      simp [hmem] at hmissing

end SelectList

namespace Plan

variable {fs : Files} {catalog : Catalog} {sources : List Source} {condition : Option Expr}
  {columns keys : List ColumnRef} {p input : Plan} {c : Cursor}

/-! ### The two queries -/

def groupedQuery (sources : List Source) (condition : Option Expr)
    (columns keys : List ColumnRef) : Select where
  items := columns.map fun c => .expr (.column c)
  sources := sources
  condition := condition
  groupBy := keys.map .column

def distinctQuery (sources : List Source) (condition : Option Expr)
    (columns : List ColumnRef) : Select where
  distinct := true
  items := columns.map fun c => .expr (.column c)
  sources := sources
  condition := condition

theorem ofSelect_groupedQuery_iff (hsome : columns ≠ []) (hkeys : keys ≠ [])
    (hsub : ∀ c ∈ columns.map (·.canonical), c ∈ keys.map (·.canonical)) :
    ofSelect catalog (groupedQuery sources condition columns keys) = .ok p ↔
      ∃ tables input, sources ≠ [] ∧ sourceTables catalog [] sources = .ok tables ∧
        base tables condition = .ok input ∧
        p = .groupSum input (keys.map (·.canonical)) (columns.map (·.canonical)) [] [] := by
  have hlist : SelectList.analyse (groupedQuery sources condition columns keys).items
      (groupedQuery sources condition columns keys).groupBy =
        .ok (.listed (columns.map (·.canonical)) (keys.map (·.canonical)) []) :=
    SelectList.analyse_columns hsome (.inr hsub)
  have hselected : ∀ tables input, selected
      (.listed (columns.map (·.canonical)) (keys.map (·.canonical)) []) tables input =
        .ok (.groupSum input (keys.map (·.canonical)) (columns.map (·.canonical)) [] []) := by
    obtain ⟨k, ks, rfl⟩ := List.exists_cons_of_ne_nil hkeys
    exact fun _ _ => rfl
  rw [ofSelect_eq_ok_iff]
  constructor
  · rintro ⟨list, tables, input, chosen, hlist', hsources, htables, hbase, hchosen, hordered⟩
    cases hlist.symm.trans hlist'
    cases (hselected tables input).symm.trans hchosen
    cases hordered
    exact ⟨tables, input, hsources, htables, hbase, rfl⟩
  · rintro ⟨tables, input, hsources, htables, hbase, rfl⟩
    exact ⟨_, tables, input, _, hlist, hsources, htables, hbase, hselected tables input, rfl⟩

theorem ofSelect_distinctQuery_iff (hsome : columns ≠ []) :
    ofSelect catalog (distinctQuery sources condition columns) = .ok p ↔
      ∃ tables input, sources ≠ [] ∧ sourceTables catalog [] sources = .ok tables ∧
        base tables condition = .ok input ∧
        p = .distinct (.project input (columns.map (·.canonical))) := by
  have hlist : SelectList.analyse (distinctQuery sources condition columns).items
      (distinctQuery sources condition columns).groupBy =
        .ok (.listed (columns.map (·.canonical)) [] []) :=
    SelectList.analyse_columns hsome (.inl rfl)
  rw [ofSelect_eq_ok_iff]
  constructor
  · rintro ⟨list, tables, input, chosen, hlist', hsources, htables, hbase, hchosen, hordered⟩
    cases hlist.symm.trans hlist'
    cases hchosen
    cases hordered
    exact ⟨tables, input, hsources, htables, hbase, rfl⟩
  · rintro ⟨tables, input, hsources, htables, hbase, rfl⟩
    exact ⟨_, tables, input, _, hlist, hsources, htables, hbase, rfl, rfl⟩

/-! ### Setting up -/

/-- A query can be prepared if it can be planned, the plan bound, and the data files opened. -/
theorem exists_prepare_iff {q : Select} : (∃ prepared, prepare fs catalog q = .ok prepared) ↔
    ∃ p, ofSelect catalog q = .ok p ∧ (∃ op, p.bound = .ok op) ∧
      ∀ t ∈ p.tables, ∃ h, openTable fs t = .ok h := by
  simp only [prepare_eq_ok_iff, ← exists_instantiate_iff]
  constructor
  · rintro ⟨prepared, hplan, -, hcursor⟩
    exact ⟨prepared.plan, hplan, prepared.cursor, hcursor⟩
  · rintro ⟨p, hplan, c, hcursor⟩
    exact ⟨⟨p, p.labels, c⟩, hplan, rfl, hcursor⟩

theorem ne_nil_of_same (hsome : columns ≠ [])
    (hsame : ∀ c, c ∈ keys.map (·.canonical) ↔ c ∈ columns.map (·.canonical)) : keys ≠ [] := by
  rintro rfl
  obtain ⟨c, cs, rfl⟩ := List.exists_cons_of_ne_nil hsome
  exact List.not_mem_nil ((hsame c.canonical).mpr (List.mem_cons_self ..))

/-- Columns that are the same but for order and repetitions can be resolved together. -/
theorem grouped_prepared_iff (hsome : columns ≠ [])
    (hsame : ∀ c, c ∈ keys.map (·.canonical) ↔ c ∈ columns.map (·.canonical)) :
    (∃ p, prepare fs catalog (groupedQuery sources condition columns keys) = .ok p) ↔
      ∃ p, prepare fs catalog (distinctQuery sources condition columns) = .ok p := by
  have hkeys := ne_nil_of_same hsome hsame
  simp only [exists_prepare_iff, ofSelect_groupedQuery_iff hsome hkeys fun c hc => (hsame c).mpr hc,
    ofSelect_distinctQuery_iff hsome]
  constructor
  · rintro ⟨p, ⟨tables, input, hsources, htables, hbase, rfl⟩, hbound, hopens⟩
    obtain ⟨hinput, -, hresolve, -⟩ := exists_bound_groupSum_iff.mp hbound
    exact ⟨_, ⟨tables, input, hsources, htables, hbase, rfl⟩,
      exists_bound_distinct_iff.mpr (exists_bound_project_iff.mpr ⟨hinput, hresolve⟩), hopens⟩
  · rintro ⟨p, ⟨tables, input, hsources, htables, hbase, rfl⟩, hbound, hopens⟩
    obtain ⟨hinput, hresolve⟩ := exists_bound_project_iff.mp (exists_bound_distinct_iff.mp hbound)
    exact ⟨_, ⟨tables, input, hsources, htables, hbase, rfl⟩,
      exists_bound_groupSum_iff.mpr ⟨hinput, fun c hc => hresolve c ((hsame c).mp hc), hresolve,
        fun e he => nomatch he⟩, hopens⟩

theorem exists_of_instantiate_groupSum
    (h : (groupSum input keys columns [] []).instantiate fs = .ok c) : ∃ d group shown,
      input.instantiate fs = .ok d ∧ keys.mapM (Scope.ofTables input.tables).resolve = .ok group ∧
        columns.mapM (Scope.ofTables input.tables).resolve = .ok shown ∧
        c = ⟨.groupSum d.op { group, shown, sums := [] }, { input := d.state }⟩ := by
  obtain ⟨d, hd, h⟩ := bind_eq_ok_iff.mp h
  obtain ⟨group, hgroup, h⟩ := bind_eq_ok_iff.mp h
  obtain ⟨shown, hshown, h⟩ := bind_eq_ok_iff.mp h
  cases h
  exact ⟨d, group, shown, hd, hgroup, hshown, rfl⟩

theorem exists_of_instantiate_distinct
    (h : (distinct (project input columns)).instantiate fs = .ok c) : ∃ d shown,
      input.instantiate fs = .ok d ∧
        columns.mapM (Scope.ofTables input.tables).resolve = .ok shown ∧
        c = ⟨.distinct (.project d.op shown (columns.map (·.label))), { input := d.state }⟩ := by
  obtain ⟨d', hd', h⟩ := bind_eq_ok_iff.mp h
  cases h
  obtain ⟨d, hd, hd'⟩ := bind_eq_ok_iff.mp hd'
  obtain ⟨shown, hshown, hd'⟩ := bind_eq_ok_iff.mp hd'
  cases hd'
  exact ⟨d, shown, hd, hshown, rfl⟩

/-- **Grouping without sums keeps each tuple once.**  Take a query for columns, grouped by the same
columns in whatever order and however often, and the query for the columns without repetitions.
Both are accepted or both rejected.  If they are accepted then, whatever the data files hold when
they are run, both hand out the first occurrences among the tuples that the rows of FROM and WHERE
have in the columns, in the order of these rows; or both fail without handing out a row. -/
theorem group_by_is_distinct (hsome : columns ≠ [])
    (hsame : ∀ c, c ∈ keys.map (·.canonical) ↔ c ∈ columns.map (·.canonical)) :
    ((∃ p, prepare fs catalog (groupedQuery sources condition columns keys) = .ok p) ↔
      ∃ p, prepare fs catalog (distinctQuery sources condition columns) = .ok p) ∧
    ∀ p p', prepare fs catalog (groupedQuery sources condition columns keys) = .ok p →
      prepare fs catalog (distinctQuery sources condition columns) = .ok p' →
      ∃ tables plan input, sourceTables catalog [] sources = .ok tables ∧
        base tables condition = .ok plan ∧ plan.instantiate fs = .ok input ∧
        ∀ fs', (∃ rows shown, input.yield fs' = .ofList rows ∧
            Restricted (.ofTables tables) columns rows shown ∧
            p.cursor.yield fs' = .ofList shown.eraseDups ∧
            p'.cursor.yield fs' = .ofList shown.eraseDups) ∨
          ∃ e e', p.cursor.yield fs' = .fail e ∧ p'.cursor.yield fs' = .fail e' := by
  refine ⟨grouped_prepared_iff hsome hsame, ?_⟩
  intro p p' hp hp'
  obtain ⟨hplan, -, hcursor⟩ := prepare_eq_ok_iff.mp hp
  obtain ⟨hplan', -, hcursor'⟩ := prepare_eq_ok_iff.mp hp'
  obtain ⟨tables, plan, hsources, htables, hbase, hpplan⟩ := (ofSelect_groupedQuery_iff hsome
    (ne_nil_of_same hsome hsame) fun c hc => (hsame c).mpr hc).mp hplan
  obtain ⟨tables', plan', -, htables', hbase', hpplan'⟩ :=
    (ofSelect_distinctQuery_iff hsome).mp hplan'
  -- both plans read the same rows, and differ in what they do with them only
  cases htables.symm.trans htables'
  cases hbase.symm.trans hbase'
  rw [hpplan] at hcursor
  rw [hpplan'] at hcursor'
  obtain ⟨input, group, shown, hinput, hgroup, hshown, hc⟩ := exists_of_instantiate_groupSum hcursor
  obtain ⟨input', shown', hinput', hshown', hc'⟩ := exists_of_instantiate_distinct hcursor'
  cases hinput.symm.trans hinput'
  cases hshown.symm.trans hshown'
  refine ⟨tables, plan, input, htables, hbase, hinput, ?_⟩
  intro fs'
  rw [hc, hc']
  -- the rows are grouped by the fields that are shown, in some order
  have hfields : ∀ i, i ∈ group ↔ i ∈ shown := by
    intro i
    simp only [mem_iff_of_mapM hgroup, mem_iff_of_mapM hshown, hsame]
  have hshownSome : shown ≠ [] := by
    rintro rfl
    have hnone := List.forall₂_nil_right_iff.mp (mapM_eq_ok_iff.mp hshown)
    exact hsome (List.map_eq_nil_iff.mp hnone)
  rcases @yield_plain { group, shown, sums := [] } _ input.op.machine fs' input.state rfl hfields
      hshownSome with ⟨rows, kept, hrows, hkept, hgroups, hdistinct⟩ | hfail
  · refine .inl ⟨rows, kept, hrows, ?_, hgroups, hdistinct⟩
    rw [tables_of_base hbase] at hshown
    refine hkept.imp ?_
    intro r o ho
    rw [fieldsAt_of_pick ho, ← valuesIn_canonical, valuesIn_of_resolve hshown]
  · exact .inr hfail

def markColumns : List ColumnRef :=
  [{ column := "pupil" }, { column := "mark" }]

/-- `markColumns` in another order, and one of them twice. -/
def markKeys : List ColumnRef :=
  [{ column := "mark" }, { column := "Pupil" }, { column := "pupil" }]

def marksGrouped : Prepared where
  plan := .groupSum (.scan Sample.marks)
    [{ column := "mark" }, { column := "pupil" }, { column := "pupil" }] markColumns [] []
  labels := ["pupil", "mark"]
  cursor :=
    { op := .groupSum (.scan Sample.marks) { group := [1, 0, 0], shown := [0, 1], sums := [] }
      state := { input := { node := .file 1 } } }

def marksDistinct : Prepared where
  plan := .distinct (.project (.scan Sample.marks) markColumns)
  labels := ["pupil", "mark"]
  cursor :=
    { op := .distinct (.project (.scan Sample.marks) [0, 1] ["pupil", "mark"])
      state := { input := { node := .file 1 } } }

theorem group_by_is_distinct_sample :
    (markColumns ≠ [] ∧
      (∀ c, c ∈ markKeys.map (·.canonical) ↔ c ∈ markColumns.map (·.canonical)) ∧
      prepare Sample.files sampleCatalog (groupedQuery [.table "Marks"] none markColumns markKeys) =
        .ok marksGrouped ∧
      prepare Sample.files sampleCatalog (distinctQuery [.table "Marks"] none markColumns) =
        .ok marksDistinct) ∧
    ∃ tables plan input, sourceTables sampleCatalog [] [.table "Marks"] = .ok tables ∧
      base tables none = .ok plan ∧ plan.instantiate Sample.files = .ok input ∧
      ∀ fs', (∃ rows shown, input.yield fs' = .ofList rows ∧
          Restricted (.ofTables tables) markColumns rows shown ∧
          marksGrouped.cursor.yield fs' = .ofList shown.eraseDups ∧
          marksDistinct.cursor.yield fs' = .ofList shown.eraseDups) ∨
        ∃ e e', marksGrouped.cursor.yield fs' = .fail e ∧
          marksDistinct.cursor.yield fs' = .fail e' := by
  have hsome : markColumns ≠ [] := nofun
  have hkeys : markKeys.map (·.canonical) =
      [{ column := "mark" }, { column := "pupil" }, { column := "pupil" }] := by decide +kernel
  have hcolumns : markColumns.map (·.canonical) =
      [{ column := "pupil" }, { column := "mark" }] := by decide +kernel
  have hsame : ∀ c, c ∈ markKeys.map (·.canonical) ↔ c ∈ markColumns.map (·.canonical) := by
    intro c
    rw [hkeys, hcolumns]
    simp [or_comm]
  have hgrouped : prepare Sample.files sampleCatalog (groupedQuery [.table "Marks"] none
      markColumns markKeys) = .ok marksGrouped := rfl
  have hdistinct : prepare Sample.files sampleCatalog (distinctQuery [.table "Marks"] none
      markColumns) = .ok marksDistinct := rfl
  exact ⟨⟨hsome, hsame, hgrouped, hdistinct⟩,
    (group_by_is_distinct hsome hsame).2 _ _ hgrouped hdistinct⟩

end Plan

end FlatQuery
