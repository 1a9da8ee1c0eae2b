import FlatQuery.Proofs.Plan.Views

/-!
# Rows in any order, answers in one

The order of the rows in the data files shows in the order in which rows are joined, in which
repeated rows and groups are first met, and in the rows that stand for their groups.  ORDER BY makes
up for all of it (`drain_reordered`): rows that are joined stay the same in some order
(`perm_of_isBase`), so do those that are selected from them (`perm_of_selected`), and sorting erases
the order.

Sums are added up one after the other and may leave the range of integers in one order only.
Without them it does not depend on the order either whether a query fails (`alike_of_selected`).
-/

namespace FlatQuery.Plan

open Rows Outcome

/-- That a data file can be read in two states of the files and holds the same rows in both, in
some order. -/
def Reordered (fs fs' : Files) (t : Table) : Prop :=
  ∃ rows rows', tableRows fs t = .ofList rows ∧ tableRows fs' t = .ofList rows' ∧ rows.Perm rows'

variable {fs fs' : Files} {p m : Plan} {op : Operator} {t : Table} {ts : List Table}
  {rows rows' : List Row}

theorem Reordered.alike (h : Reordered fs fs' t) :
    Yield.Alike (tableRows fs t) (tableRows fs' t) := by
  obtain ⟨rows, rows', hrows, hrows', hperm⟩ := h
  rw [hrows, hrows']
  exact ⟨Iff.rfl, fun _ => hperm⟩

theorem Reordered.opens (h : Reordered fs fs' t) : ∃ s, openTable fs' t = .ok s := by
  obtain ⟨rows, rows', -, hrows', -⟩ := h
  exact opens_of_tableRows (congrArg Yield.error hrows')

/-! ### Joined rows -/

theorem alike_of_isBase (hp : p.IsBase) (hop : p.bound = .ok op)
    (hfiles : ∀ t ∈ p.tables, Reordered fs fs' t) :
    Yield.Alike (op.yield fs) (op.yield fs') := by
  induction p generalizing op with
  | scan t =>
    cases hop
    exact (hfiles t (List.mem_singleton_self t)).alike
  | select input t on ih =>
    obtain ⟨i, hi, hop⟩ := bind_eq_ok_iff.mp hop
    obtain ⟨on', -, hop⟩ := bind_eq_ok_iff.mp hop
    cases hop
    have hinput : input.IsBase := by
      rw [show input = .scan t from hp]
      trivial
    exact (ih hinput hi hfiles).bind fun r => .refl _
  | join l r on ihl ihr =>
    obtain ⟨i, hi, hop⟩ := bind_eq_ok_iff.mp hop
    obtain ⟨j, hj, hop⟩ := bind_eq_ok_iff.mp hop
    obtain ⟨on', -, hop⟩ := bind_eq_ok_iff.mp hop
    cases hop
    obtain ⟨hl, hr⟩ := List.forall_mem_append.mp hfiles
    have hright := ihr hp.2 hj hr
    exact (ihl hp.1 hi hl).bind fun a => hright.bind fun b => .refl _
  | filter input on ih =>
    obtain ⟨i, hi, hop⟩ := bind_eq_ok_iff.mp hop
    obtain ⟨on', -, hop⟩ := bind_eq_ok_iff.mp hop
    cases hop
    exact (ih hp hi hfiles).bind fun r => .refl _
  | _ => exact hp.elim

theorem perm_of_isBase (hp : p.IsBase) (hfiles : ∀ t ∈ p.tables, Reordered fs fs' t)
    (h : HandsOut fs p rows) (h' : HandsOut fs' p rows') : rows.Perm rows' := by
  obtain ⟨op, s, hop, -, rfl, herror⟩ := handsOut_iff.mp h
  obtain ⟨op', s', hop', -, rfl, -⟩ := handsOut_iff.mp h'
  obtain rfl : op = op' := Except.ok.inj (hop.symm.trans hop')
  exact (alike_of_isBase hp hop hfiles).rows herror

/-! ### Selected rows -/

section Selected

variable {items : List SelectItem} {groupBy : List Expr} {list : SelectList}
  (hlist : SelectList.analyse items groupBy = .ok list) (hm : selected list ts p = .ok m)
  (hp : p.IsBase) (hfiles : ∀ t ∈ p.tables, Reordered fs fs' t)

include hlist hm hp hfiles

theorem perm_of_selected (h : HandsOut fs m rows) (h' : HandsOut fs' m rows') :
    rows.Perm rows' := by
  obtain ⟨m', hm', hstage⟩ := exists_sameStage hlist (fun _ => rfl) rfl (fun _ => rfl)
    (fun _ => rfl) hm
  obtain rfl : m = m' := Except.ok.inj (hm.symm.trans hm')
  exact hstage.perm (fun _ _ _ => perm_of_isBase hp hfiles)
    (fun _ _ hj hj' => .of_perm _ (perm_of_isBase hp hfiles hj hj')) h h'

/-- Without aggregates, selecting fails in both states of the files or in neither. -/
theorem alike_of_selected (hnone : ∀ item ∈ items, SelectList.isAggregateItem item = false)
    (hop : m.bound = .ok op) {s : op.State} (hs : op.start? fs = .ok s) {s' : op.State}
    (hs' : op.start? fs' = .ok s') : Yield.Alike (op.yield fs) (op.yield fs') := by
  have hpicked : ∀ columns, m = .project p columns →
      Yield.Alike (op.yield fs) (op.yield fs') := by
    rintro columns rfl
    obtain ⟨input, hinput, hop⟩ := bind_eq_ok_iff.mp hop
    obtain ⟨indexes, -, hop⟩ := bind_eq_ok_iff.mp hop
    cases hop
    exact (alike_of_isBase hp hinput hfiles).bind fun r => .refl _
  cases list with
  | star table =>
    rcases selected_star_cases hm with rfl | ⟨columns, hproject⟩
    · exact alike_of_isBase hp hop hfiles
    · exact hpicked columns hproject
  | listed columns keys aggregates =>
    obtain rfl := (SelectList.reads_of_analyse hlist).aggregates_eq_nil hnone
    have hsub := columns_subset_of_analyse hlist
    rcases selected_listed_cases columns keys [] with
      ⟨e, hcase⟩ | ⟨sums, labels, hsums, hcase⟩ | ⟨-, -, hcase⟩
    · rw [hcase] at hm
      cases hm
    · cases hsums
      -- without sums, grouping fails only at a row that lacks a field, whichever comes first
      have hgroup : m = .groupSum p (if keys.isEmpty then columns else keys) columns [] [] := by
        rw [hcase] at hm
        exact (Except.ok.inj hm).symm
      have herror : (op.yield fs).error = none ↔ (op.yield fs').error = none := by
        subst hgroup
        obtain ⟨input, hinput, hop⟩ := bind_eq_ok_iff.mp hop
        obtain ⟨group, hkeys, hop⟩ := bind_eq_ok_iff.mp hop
        obtain ⟨shown, hshown, hop⟩ := bind_eq_ok_iff.mp hop
        cases hop
        have hsubset : shown ⊆ group := by
          intro i hi
          obtain ⟨c, hc, hci⟩ := (mem_iff_of_mapM hshown).mp hi
          exact (mem_iff_of_mapM hkeys).mpr ⟨c, hsub c hc, hci⟩
        change (Yield.ofRows _).error = none ↔ (Yield.ofRows _).error = none
        rw [Yield.ofRows_error, Yield.ofRows_error]
        exact (alike_of_isBase hp hinput hfiles).exists_grouped_iff rfl hsubset
      refine ⟨herror, fun hnone => ?_⟩
      exact perm_of_selected hlist hm hp hfiles
        (handsOut_iff.mpr ⟨op, s, hop, hs, rfl, hnone⟩)
        (handsOut_iff.mpr ⟨op, s', hop, hs', rfl, herror.mp hnone⟩)
    · rw [hcase] at hm
      exact hpicked columns (Except.ok.inj hm).symm

end Selected

/-- Dropping repeated rows fails in both states of the files or in neither, if its input does. -/
theorem alike_of_deduplicated {distinct : Bool} (hop : (deduplicated distinct m).bound = .ok op)
    {s : op.State} (hs : op.start? fs = .ok s) {s' : op.State} (hs' : op.start? fs' = .ok s')
    (hm : ∀ {i : Operator} {x x' : i.State}, m.bound = .ok i → i.start? fs = .ok x →
      i.start? fs' = .ok x' → Yield.Alike (i.yield fs) (i.yield fs')) :
    Yield.Alike (op.yield fs) (op.yield fs') := by
  cases distinct with
  | false => exact hm hop hs hs'
  | true =>
    obtain ⟨i, hi, hop⟩ := bind_eq_ok_iff.mp hop
    cases hop
    obtain ⟨x, hx, -⟩ := bind_eq_ok_iff.mp hs
    obtain ⟨x', hx', -⟩ := bind_eq_ok_iff.mp hs'
    exact (hm hi hx hx').distinct

/-! ### Sorted rows -/

/-- **ORDER BY erases the order of the data files.**  A query with ORDER BY that has been planned is
planned in the same way if every data file holds the same rows in another order.  If neither run
fails, both hand out the same rows in the same order; and without aggregates, one fails exactly if
the other does. -/
theorem drain_reordered {fs fs' : Files} {catalog : Catalog} {q : Select} {p : Prepared}
    (hp : prepare fs catalog q = .ok p) (horder : q.orderBy ≠ [])
    (hfiles : ∀ t ∈ p.plan.tables, Reordered fs fs' t) :
    ∃ p', prepare fs' catalog q = .ok p' ∧ p'.plan = p.plan ∧ p'.labels = p.labels ∧
      ((p.cursor.drain fs).2.1 = none → (p'.cursor.drain fs').2.1 = none →
        (p.cursor.drain fs).1 = (p'.cursor.drain fs').1) ∧
      ((∀ item ∈ q.items, SelectList.isAggregateItem item = false) →
        ((p.cursor.drain fs).2.1 = none ↔ (p'.cursor.drain fs').2.1 = none)) := by
  obtain ⟨hplan, hlabels, hc⟩ := prepare_eq_ok_iff.mp hp
  obtain ⟨list, tables, joined, chosen, hlist, -, -, hjoined, hchosen, hordered⟩ :=
    ofSelect_eq_ok_iff.mp hplan
  -- the plan sorts what has been selected
  obtain ⟨ks, hsort⟩ : ∃ ks, p.plan = .sort (deduplicated q.distinct chosen) ks := by
    rcases ordered_eq_ok_iff.mp hordered with ⟨hnil, -⟩ | ⟨-, ks, -, hsort⟩
    · exact absurd hnil horder
    · exact ⟨ks, hsort⟩
  have htables : p.plan.tables = joined.tables := by
    rw [hsort, Plan.tables, tables_deduplicated, tables_of_selected hchosen]
  have hbase := isBase_of_base hjoined
  have hfiles' : ∀ t ∈ joined.tables, Reordered fs fs' t := htables ▸ hfiles
  obtain ⟨⟨op, hop⟩, -⟩ := exists_instantiate_iff.mp ⟨_, hc⟩
  obtain ⟨c', hc'⟩ : ∃ c', p.plan.instantiate fs' = .ok c' :=
    exists_instantiate_iff.mpr ⟨⟨op, hop⟩, fun t ht => (hfiles t ht).opens⟩
  refine ⟨{ p with cursor := c' }, prepare_eq_ok_iff.mpr ⟨hplan, hlabels, hc'⟩, rfl, rfl, ?_, ?_⟩
  · intro hend hend'
    have hout : HandsOut fs p.plan (p.cursor.drain fs).1 := ⟨_, hc, rfl, hend⟩
    have hout' : HandsOut fs' p.plan (c'.drain fs').1 := ⟨_, hc', rfl, hend'⟩
    rw [hsort] at hout hout'
    refine eq_of_sort (fun rows rows' h h' => ?_) hout hout'
    exact perm_of_deduplicated q.distinct
      (fun _ _ => perm_of_selected hlist hchosen hbase hfiles') h h'
  · intro hnone
    obtain ⟨⟨s, hs⟩, hdrain⟩ := drain_of_bound hc hop
    obtain ⟨⟨s', hs'⟩, hdrain'⟩ := drain_of_bound hc' hop
    rw [hsort] at hop
    obtain ⟨i, hi, hop⟩ := bind_eq_ok_iff.mp hop
    cases hop
    obtain ⟨x, hx, -⟩ := bind_eq_ok_iff.mp hs
    obtain ⟨x', hx', -⟩ := bind_eq_ok_iff.mp hs'
    have halike := alike_of_deduplicated hi hx hx' fun hm hy hy' =>
      alike_of_selected hlist hchosen hbase hfiles' hnone hm hy hy'
    have hsorted : (((i.sort (ks.map sortKey)).yield fs).error = none) ↔
        ((i.sort (ks.map sortKey)).yield fs').error = none := by
      rw [Operator.yield, Operator.yield, Yield.ofRows_error, Yield.ofRows_error]
      exact exists_congr fun out => halike.sorted _
    rwa [← hdrain, ← hdrain'] at hsorted

/-- The marks that pupils got, each once and in order. -/
def orderedQuery : Select where
  distinct := true
  items := [.expr (.column { column := "mark" })]
  sources := [.table "Pupils", .table "marks"]
  condition := some Sample.matching
  orderBy := [{ expr := .column { column := "mark" } }]

def orderedPrepared : Prepared where
  plan := .sort (.distinct (.project
    (.join (.scan Sample.pupils) (.scan Sample.marks)
      (some (.binary (.column { table := some "pupils", column := "id" }) .equal
        (.column { table := some "marks", column := "pupil" }))))
    [{ column := "mark" }])) [{ label := "mark", index := 0, ascending := true }]
  labels := ["mark"]
  cursor :=
    { op := .sort (.distinct (.project
        (.join (.scan Sample.pupils) (.scan Sample.marks)
          (some (.binary (.field 0 "pupils.id") .equal (.field 2 "marks.pupil"))))
        [3] ["mark"])) [{ index := 0 }]
      state := { input := { input := { left := { node := .file 0 }, right := { node := .file 1 } } } } }

theorem prepare_orderedQuery :
    prepare Sample.files sampleCatalog orderedQuery = .ok orderedPrepared := by
  rfl

/-- The rows of both tables come in another order, and the answer stays the same. -/
theorem drain_reordered_sample :
    let fs := Sample.files
    let fs' := Sample.filesWith "2,15\n1,14\n" "1,3\n1,3\n2,1\n"
    (prepare fs sampleCatalog orderedQuery = .ok orderedPrepared ∧ orderedQuery.orderBy ≠ [] ∧
      ∀ t ∈ orderedPrepared.plan.tables, Reordered fs fs' t) ∧
    ∃ p', prepare fs' sampleCatalog orderedQuery = .ok p' ∧
      (p'.cursor.drain fs').2.1 = none ∧
      (p'.cursor.drain fs').1 = (orderedPrepared.cursor.drain fs).1 := by
  intro fs fs'
  have hprepare : prepare fs sampleCatalog orderedQuery = .ok orderedPrepared :=
    prepare_orderedQuery
  have horder : orderedQuery.orderBy ≠ [] := List.cons_ne_nil _ _
  have hpupils : Reordered fs fs' Sample.pupils :=
    ⟨[⟨["1", "14"]⟩, ⟨["2", "15"]⟩], [⟨["2", "15"]⟩, ⟨["1", "14"]⟩], rfl, rfl, by decide⟩
  have hmarks : Reordered fs fs' Sample.marks :=
    ⟨[⟨["1", "3"]⟩, ⟨["2", "1"]⟩, ⟨["1", "3"]⟩], [⟨["1", "3"]⟩, ⟨["1", "3"]⟩, ⟨["2", "1"]⟩], rfl,
      rfl, by decide⟩
  have hfiles : ∀ t ∈ orderedPrepared.plan.tables, Reordered fs fs' t :=
    List.forall_mem_cons.mpr ⟨hpupils, List.forall_mem_singleton.mpr hmarks⟩
  have hdrain := @Cursor.drain_of_start fs orderedPrepared.cursor rfl
  have hend : (orderedPrepared.cursor.drain fs).2.1 = none :=
    (congrArg Yield.error hdrain).trans (by decide)
  obtain ⟨p', hp', -, -, hsame, hfails⟩ := drain_reordered hprepare horder hfiles
  have hnone : ∀ item ∈ orderedQuery.items, SelectList.isAggregateItem item = false :=
    List.forall_mem_singleton.mpr rfl
  have hend' := (hfails hnone).mp hend
  exact ⟨⟨hprepare, horder, hfiles⟩, p', hp', hend', (hsame hend hend').symm⟩

end FlatQuery.Plan
