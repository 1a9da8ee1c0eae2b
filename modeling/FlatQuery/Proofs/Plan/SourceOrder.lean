import FlatQuery.Proofs.Catalog.Opened
import FlatQuery.Proofs.Plan.Pushdown
import FlatQuery.Proofs.Plan.RowOrder
import FlatQuery.Proofs.Rows.Pieces

/-!
# Tables in any order, answers with the same rows

The order of the FROM list shows in the fields of joined rows, in where a conjunct is tested, and in
the order of the rows.  If the names of the tables differ, none of that shows in what a list of
columns and aggregates selects (`drain_permuted`): the same references can be resolved
(`within_perm`), the joined rows are read alike (`sameViews_of_base`), and so what is selected from
them is the same in some order.

The names of the tables of a catalog differ, unless the catalog has been read from a document that
gives two tables one number (`not_drain_permuted`).
-/

namespace FlatQuery

open Outcome

namespace Scope

/-! ### References that can be resolved -/

/-- That every reference that can be resolved in a scope can be resolved in another. -/
def Within (s s' : Scope) : Prop :=
  ∀ c, (∃ i, s.resolve c = .ok i) → ∃ i, s'.resolve c = .ok i

variable {s s' : Scope}

theorem within_perm {ts ts' : List ScopeTable} (hnames : (ts.map (·.name)).Nodup)
    (h : ts.Perm ts') : Within (joined ts) (joined ts') :=
  fun _ => exists_resolve_perm hnames h

theorem Within.qualifyExpr {ts ts' : List ScopeTable} (h : Within (joined ts) (joined ts'))
    {e : Expr} (he : ∃ q, (joined ts).qualifyExpr e = .ok q) :
    ∃ q, (joined ts').qualifyExpr e = .ok q := by
  rw [exists_qualifyExpr_iff] at he ⊢
  exact fun c hc => h c (he c hc)

theorem Within.bind (h : Within s s') {e : Expr} (he : ∃ t, s.bind e = .ok t) :
    ∃ t, s'.bind e = .ok t := by
  induction e using Expr.shallow with
  | column c =>
    rw [Scope.bind, exists_bind_pure_iff] at he ⊢
    exact h c he
  | literal v => exact ⟨_, rfl⟩
  | binary l op r ihl ihr =>
    rw [Scope.bind, exists_bind_iff fun _ => exists_bind_pure_iff] at he ⊢
    exact ⟨ihl he.1, ihr he.2⟩
  | nested e ih =>
    rw [Scope.bind, exists_bind_pure_iff] at he ⊢
    exact ih he
  | call name args => exact ⟨_, rfl⟩

end Scope

namespace Plan

open Rows Scope

variable {fs : Files} {catalog : Catalog} {q : Select} {p p' m m' : Plan} {op op' : Operator}
  {ts ts' : List Table} {condition : Option Expr} {rows rows' : List Row}

/-! ### Tables found by their names -/

theorem find_name_eq_some_iff {name : String} {t : Table} (hnames : (ts.map (·.name)).Nodup) :
    ts.find? (·.name == name) = some t ↔ t ∈ ts ∧ t.name = name := by
  constructor
  · intro h
    have hname : t.name = name := by simpa using List.find?_some h
    exact ⟨List.mem_of_find?_eq_some h, hname⟩
  · rintro ⟨ht, rfl⟩
    cases hfind : ts.find? (·.name == t.name) with
    | none => exact absurd (beq_self_eq_true t.name) (List.find?_eq_none.mp hfind t ht)
    | some u =>
      have hname : u.name = t.name := by simpa using List.find?_some hfind
      rw [List.inj_on_of_nodup_map hnames (List.mem_of_find?_eq_some hfind) ht hname]

theorem find_name_perm (hnames : (ts.map (·.name)).Nodup) (h : ts.Perm ts') (name : String) :
    ts'.find? (·.name == name) = ts.find? (·.name == name) := by
  have hnames' : (ts'.map (·.name)).Nodup := (h.map _).nodup_iff.mp hnames
  refine Option.ext fun t => ?_
  rw [find_name_eq_some_iff hnames, find_name_eq_some_iff hnames', h.mem_iff]

/-! ### What can be planned -/

section Perm

variable (hnames : (ts.map fun t => Name.canonical t.name).Nodup) (hts : ts.Perm ts')

include hnames hts

theorem within_ofTables : Within (.ofTables ts) (.ofTables ts') :=
  within_perm (by rw [map_name_ofTable]; exact hnames) (hts.map _)

theorem exists_base_perm (h : base ts condition = .ok p) : ∃ p', base ts' condition = .ok p' := by
  obtain ⟨hne, hcondition⟩ := exists_base_iff.mp ⟨p, h⟩
  refine exists_base_iff.mpr ⟨?_, fun e he => ?_⟩
  · rintro rfl
    exact hne hts.eq_nil
  · exact (within_ofTables hnames hts).qualifyExpr (hcondition e he)

end Perm

theorem exists_bound_of_base (hnames : (ts.map fun t => Name.canonical t.name).Nodup)
    (h : base ts condition = .ok p) : ∃ op, p.bound = .ok op := by
  obtain ⟨es, on, hpushed, -, -⟩ := pushed_base (regular_scopeTables hnames) h
  obtain ⟨-, op, hop, -⟩ := hpushed.gives
  exact ⟨op, hop⟩

theorem SameStage.labels (h : SameStage p p' m m') : m'.labels = m.labels := by
  cases h with
  | keep h => rw [h]
  | project columns => rfl
  | groupSum hsub sums labels => rfl

theorem SameStage.exists_bound (h : SameStage p p' m m')
    (hwithin : Within (.ofTables p.tables) (.ofTables p'.tables)) (hp' : ∃ op, p'.bound = .ok op)
    (hm : ∃ op, m.bound = .ok op) : ∃ op, m'.bound = .ok op := by
  cases h with
  | keep h => exact hp'
  | project columns =>
    rw [exists_bound_project_iff] at hm ⊢
    exact ⟨hp', fun c hc => hwithin c (hm.2 c hc)⟩
  | groupSum hsub sums labels =>
    rw [exists_bound_groupSum_iff] at hm ⊢
    obtain ⟨-, hkeys, hcolumns, hsums⟩ := hm
    exact ⟨hp', fun c hc => hwithin c (hkeys c hc), fun c hc => hwithin c (hcolumns c hc),
      fun e he => hwithin.bind (hsums e he)⟩

theorem exists_bound_deduplicated_iff {distinct : Bool} :
    (∃ op, (deduplicated distinct p).bound = .ok op) ↔ ∃ op, p.bound = .ok op := by
  cases distinct with
  | true => exact exists_bound_distinct_iff
  | false => exact Iff.rfl

theorem exists_bound_of_ordered_iff {items : List OrderItem} (h : ordered items m = .ok p) :
    (∃ op, p.bound = .ok op) ↔ ∃ op, m.bound = .ok op := by
  rcases ordered_eq_ok_iff.mp h with ⟨-, rfl⟩ | ⟨-, ks, -, rfl⟩
  · exact Iff.rfl
  · exact exists_bound_sort_iff

/-- A plan with the same labels can be put in order in the same way. -/
theorem exists_ordered {items : List OrderItem} (hlabels : m'.labels = m.labels)
    (h : ordered items m = .ok p) : ∃ p', ordered items m' = .ok p' ∧ p'.labels = p.labels := by
  rcases ordered_eq_ok_iff.mp h with ⟨hnil, rfl⟩ | ⟨hne, ks, hks, rfl⟩
  · exact ⟨m', ordered_eq_ok_iff.mpr (.inl ⟨hnil, rfl⟩), hlabels⟩
  · have hks' : orderKeys items m'.labels = .ok ks := hlabels ▸ hks
    exact ⟨.sort m' ks, ordered_eq_ok_iff.mpr (.inr ⟨hne, ks, hks', rfl⟩), hlabels⟩

/-! ### Joined rows -/

/-- Whether a condition is true, given the fields that columns stand for. -/
def admits (condition : Option Expr) (view : ColumnRef → Option String) : Bool :=
  condition.all fun e => e.truth view == some true

/-- The plan for FROM and WHERE hands out the combinations of rows that are read in a way that the
condition admits. -/
theorem views_of_base {tableRow : Table → List Row}
    (hnames : (ts.map fun t => Name.canonical t.name).Nodup)
    (hholds : ∀ t ∈ ts, Holds fs t (tableRow t)) (h : base ts condition = .ok p)
    (hrows : HandsOut fs p rows) :
    rows.map (Scope.ofTables ts).value =
      ((product (ts.map tableRow)).map (Scope.ofTables ts).value).filter (admits condition) := by
  obtain ⟨es, on, ⟨-, op, hop, hgives⟩, hon, htests⟩ :=
    answers_base (regular_scopeTables hnames) hholds h
  obtain ⟨op', s, hop', -, rfl, hend⟩ := handsOut_iff.mp hrows
  obtain rfl : op = op' := Except.ok.inj (hop.symm.trans hop')
  rw [hgives.agrees.2 hend, List.filter_map]
  refine congrArg _ (List.filter_congr fun r _ => ?_)
  rw [Bool.eq_iff_iff, ← htests.accepts]
  cases condition with
  | none =>
    cases hon
    exact iff_of_true rfl rfl
  | some e =>
    obtain ⟨t, ht, hon⟩ := bind_eq_ok_iff.mp hon
    cases hon
    simp only [Function.comp, admits, Option.all_some, beq_iff_eq, ← toOption_holds ht,
      toOption_eq_some_iff]
    rfl

/-- Joined rows that are handed out without a failure are none if some table cannot be read. -/
theorem rows_eq_nil_of_unreadable (hp : p.IsBase) (hop : p.bound = .ok op)
    (hbad : ∃ t ∈ p.tables, (tableRows fs t).error ≠ none) (hend : (op.yield fs).error = none) :
    (op.yield fs).rows = [] := by
  induction p generalizing op with
  | scan t =>
    cases hop
    obtain ⟨u, hu, hbad⟩ := hbad
    obtain rfl := List.mem_singleton.mp hu
    exact absurd hend hbad
  | select input t on ih =>
    obtain ⟨i, hi, hop⟩ := bind_eq_ok_iff.mp hop
    obtain ⟨on', -, hop⟩ := bind_eq_ok_iff.mp hop
    cases hop
    have hinput : input.IsBase := by
      rw [show input = .scan t from hp]
      trivial
    have hnil := ih hinput hi hbad (Yield.bind_error.mp hend).1
    rw [Operator.yield, Yield.rows_bind hend, hnil, List.flatMap_nil]
  | join l r on ihl ihr =>
    obtain ⟨i, hi, hop⟩ := bind_eq_ok_iff.mp hop
    obtain ⟨j, hj, hop⟩ := bind_eq_ok_iff.mp hop
    obtain ⟨on', -, hop⟩ := bind_eq_ok_iff.mp hop
    cases hop
    obtain ⟨hleft, hright⟩ := Yield.bind_error.mp hend
    rw [Operator.yield, Yield.rows_bind hend, List.flatMap_eq_nil_iff]
    intro a ha
    obtain ⟨t, ht, hbad⟩ := hbad
    -- a right side that cannot be read is met only if there is a left row
    rcases List.mem_append.mp ht with ht | ht
    · rw [ihl hp.1 hi ⟨t, ht, hbad⟩ hleft] at ha
      cases ha
    · have hnil := ihr hp.2 hj ⟨t, ht, hbad⟩ (Yield.bind_error.mp (hright a ha)).1
      rw [Yield.rows_bind (hright a ha), hnil, List.flatMap_nil]
  | filter input on ih =>
    obtain ⟨i, hi, hop⟩ := bind_eq_ok_iff.mp hop
    obtain ⟨on', -, hop⟩ := bind_eq_ok_iff.mp hop
    cases hop
    have hnil := ih hp hi hbad (Yield.bind_error.mp hend).1
    rw [Operator.yield, Yield.rows_bind hend, hnil, List.flatMap_nil]
  | _ => exact hp.elim

/-- The rows of tables that are joined in two orders are read alike. -/
theorem sameViews_of_base (hnames : (ts.map fun t => Name.canonical t.name).Nodup)
    (hts : ts.Perm ts') (h : base ts condition = .ok p) (h' : base ts' condition = .ok p')
    (hwidth : ∀ t ∈ ts, ∀ r ∈ (tableRows fs t).rows, r.width = t.columns.length)
    (hrows : HandsOut fs p rows) (hrows' : HandsOut fs p' rows') :
    SameViews (.ofTables ts) rows (.ofTables ts') rows' := by
  by_cases hread : ∀ t ∈ ts, (tableRows fs t).error = none
  · have hholds : ∀ t ∈ ts, Holds fs t (tableRows fs t).rows := fun t ht =>
      ⟨by rw [Yield.ofList, ← hread t ht], hwidth t ht⟩
    have hnames' : (ts'.map fun t => Name.canonical t.name).Nodup :=
      (hts.map _).nodup_iff.mp hnames
    have hviews := views_of_base hnames hholds h hrows
    have hviews' := views_of_base hnames' (fun t ht => hholds t (hts.mem_iff.mpr ht)) h' hrows'
    unfold SameViews
    rw [hviews, hviews']
    exact (map_value_product_perm hts hnames hwidth).filter _
  · obtain ⟨t, ht, hbad⟩ : ∃ t ∈ ts, (tableRows fs t).error ≠ none := by
      simpa only [not_forall, exists_prop] using hread
    have hnil : ∀ {ts : List Table} {p : Plan} {rows : List Row}, base ts condition = .ok p →
        t ∈ ts → HandsOut fs p rows → rows = [] := by
      intro ts p rows h ht hrows
      obtain ⟨op, s, hop, -, rfl, hend⟩ := handsOut_iff.mp hrows
      refine rows_eq_nil_of_unreadable (isBase_of_base h) hop ⟨t, ?_, hbad⟩ hend
      rwa [tables_of_base h]
    rw [hnil h ht hrows, hnil h' (hts.mem_iff.mp ht) hrows']
    exact .refl _

/-! ### Whole queries -/

theorem nodup_names (hnames : (ts.map fun t => Name.canonical t.name).Nodup) :
    (ts.map (·.name)).Nodup := by
  refine List.Nodup.of_map Name.canonical ?_
  rw [List.map_map]
  exact hnames

section Whole

variable {sources' : List Source} (hperm : q.sources.Perm sources') (hstar : q.items ≠ [.star])
  (hnames : ∀ ts, sourceTables catalog [] q.sources = .ok ts →
    (ts.map fun t => Name.canonical t.name).Nodup)

include hperm hstar hnames

/-- A query whose FROM list is put into another order can be planned, and its plan ends in the same
stages. -/
theorem exists_ofSelect_permuted (h : ofSelect catalog q = .ok p) (hbound : ∃ op, p.bound = .ok op) :
    ∃ p', ofSelect catalog { q with sources := sources' } = .ok p' ∧ p.tables.Perm p'.tables ∧
      p'.labels = p.labels ∧ (∃ op, p'.bound = .ok op) ∧
      ((∀ t ∈ p.tables, ∀ r ∈ (tableRows fs t).rows, r.width = t.columns.length) →
        ∀ rows rows', HandsOut fs p rows → HandsOut fs p' rows' →
          rows.Perm rows' ∧ (q.orderBy ≠ [] → rows = rows')) := by
  obtain ⟨list, ts, joined, chosen, hlist, hsome, hts, hjoined, hchosen, hordered⟩ :=
    ofSelect_eq_ok_iff.mp h
  have hnodup := hnames ts hts
  obtain ⟨ts', hts', htables⟩ := exists_sourceTables_perm hperm hts
  obtain ⟨joined', hjoined'⟩ := exists_base_perm hnodup htables hjoined
  have hone : ts.length = 1 → joined = joined' := by
    intro hlength
    obtain ⟨t, rfl⟩ := List.length_eq_one_iff.mp hlength
    obtain rfl := List.perm_singleton.mp htables.symm
    exact Except.ok.inj (hjoined.symm.trans hjoined')
  -- a bare star shows the fields in the order of FROM, which is why it is ruled out
  have hlist' : list = .star none → joined = joined' := by
    rintro rfl
    exact absurd (SelectList.reads_of_analyse hlist).items_eq_star hstar
  obtain ⟨chosen', hchosen', hstage⟩ := exists_sameStage hlist hlist' htables.symm.length_eq hone
    (find_name_perm (nodup_names hnodup) htables) hchosen
  have hlabels : (deduplicated q.distinct chosen').labels =
      (deduplicated q.distinct chosen).labels := by
    rw [labels_deduplicated, labels_deduplicated, hstage.labels]
  obtain ⟨p', hordered', hlabels'⟩ := exists_ordered hlabels hordered
  have hsome' : sources' ≠ [] := by
    rintro rfl
    exact hsome hperm.eq_nil
  have hplan' : ofSelect catalog { q with sources := sources' } = .ok p' :=
    ofSelect_eq_ok_iff.mpr
      ⟨list, ts', joined', chosen', hlist, hsome', hts', hjoined', hchosen', hordered'⟩
  obtain rfl : ts = p.tables := Except.ok.inj (hts.symm.trans (tables_of_ofSelect h))
  obtain rfl : ts' = p'.tables := Except.ok.inj (hts'.symm.trans (tables_of_ofSelect hplan'))
  have hover : joined.tables = p.tables := tables_of_base hjoined
  have hover' : joined'.tables = p'.tables := tables_of_base hjoined'
  refine ⟨p', hplan', htables, hlabels', ?_, ?_⟩
  · rw [exists_bound_of_ordered_iff hordered', exists_bound_deduplicated_iff]
    rw [exists_bound_of_ordered_iff hordered, exists_bound_deduplicated_iff] at hbound
    refine hstage.exists_bound ?_ ?_ hbound
    · rw [hover, hover']
      exact within_ofTables hnodup htables
    · exact exists_bound_of_base ((htables.map _).nodup_iff.mp hnodup) hjoined'
  · intro hwidth rows rows' hr hr'
    have hkeep : joined = joined' → ∀ rows rows', HandsOut fs joined rows →
        HandsOut fs joined' rows' → rows.Perm rows' := by
      rintro rfl rows rows' hr hr'
      exact .of_eq (hr.unique hr')
    -- the rows are laid out differently, so they are compared by what references mean in them
    have hviews : ∀ rows rows', HandsOut fs joined rows → HandsOut fs joined' rows' →
        SameViews (.ofTables joined.tables) rows (.ofTables joined'.tables) rows' := by
      rw [hover, hover']
      exact fun _ _ => sameViews_of_base hnodup htables hjoined hjoined' hwidth
    refine perm_of_ordered hordered hordered' hlabels (fun _ _ => ?_) hr hr'
    exact perm_of_deduplicated q.distinct fun _ _ => hstage.perm hkeep hviews

theorem exists_prepare_permuted {p : Prepared} (h : prepare fs catalog q = .ok p) :
    ∃ p', prepare fs catalog { q with sources := sources' } = .ok p' ∧ p'.labels = p.labels ∧
      ((∀ t ∈ p.plan.tables, ∀ r ∈ (tableRows fs t).rows, r.width = t.columns.length) →
        (p.cursor.drain fs).2.1 = none → (p'.cursor.drain fs).2.1 = none →
          (p.cursor.drain fs).1.Perm (p'.cursor.drain fs).1 ∧
            (q.orderBy ≠ [] → (p.cursor.drain fs).1 = (p'.cursor.drain fs).1)) := by
  obtain ⟨hplan, hlabels, hc⟩ := prepare_eq_ok_iff.mp h
  obtain ⟨hbound, hopens⟩ := exists_instantiate_iff.mp ⟨_, hc⟩
  obtain ⟨plan', hplan', htables, hlabels', hbound', hrows⟩ :=
    exists_ofSelect_permuted hperm hstar hnames hplan hbound
  obtain ⟨c', hc'⟩ : ∃ c', plan'.instantiate fs = .ok c' :=
    exists_instantiate_iff.mpr ⟨hbound', fun t ht => hopens t (htables.mem_iff.mpr ht)⟩
  refine ⟨⟨plan', plan'.labels, c'⟩, prepare_eq_ok_iff.mpr ⟨hplan', rfl, hc'⟩, ?_, ?_⟩
  · exact hlabels'.trans hlabels.symm
  · intro hwidth hend hend'
    exact hrows hwidth _ _ ⟨_, hc, rfl, hend⟩ ⟨_, hc', rfl, hend'⟩

end Whole

/-- **The order of FROM does not matter.**  Let the tables of a FROM list have names that differ in
canonical form, and let the SELECT list not be a star.  Then the query can be prepared with its FROM
list in any order or in none, the labels of the answer are the same in all of them, and if the rows
of the tables are as wide as the tables, two runs that do not fail hand out the same rows: in the
same order if the query has an ORDER BY, and otherwise in some order. -/
theorem drain_permuted {fs : Files} {catalog : Catalog} {q : Select} {sources' : List Source}
    (hperm : q.sources.Perm sources') (hstar : q.items ≠ [.star])
    (hnames : ∀ ts, sourceTables catalog [] q.sources = .ok ts →
      (ts.map fun t => Name.canonical t.name).Nodup) :
    ((∃ p, prepare fs catalog q = .ok p) ↔
      ∃ p', prepare fs catalog { q with sources := sources' } = .ok p') ∧
    ∀ p p', prepare fs catalog q = .ok p →
      prepare fs catalog { q with sources := sources' } = .ok p' →
      p'.labels = p.labels ∧
      ((∀ t ∈ p.plan.tables, ∀ r ∈ (tableRows fs t).rows, r.width = t.columns.length) →
        (p.cursor.drain fs).2.1 = none → (p'.cursor.drain fs).2.1 = none →
          (p.cursor.drain fs).1.Perm (p'.cursor.drain fs).1 ∧
            (q.orderBy ≠ [] → (p.cursor.drain fs).1 = (p'.cursor.drain fs).1)) := by
  have hnames' : ∀ ts', sourceTables catalog [] sources' = .ok ts' →
      (ts'.map fun t => Name.canonical t.name).Nodup := by
    intro ts' hts'
    obtain ⟨ts, hts, hperm'⟩ := exists_sourceTables_perm hperm.symm hts'
    exact (hperm'.map _).nodup_iff.mpr (hnames ts hts)
  have hback : ({ q with sources := sources' } : Select).sources.Perm q.sources := hperm.symm
  refine ⟨⟨?_, ?_⟩, fun p p' hp hp' => ?_⟩
  · rintro ⟨p, hp⟩
    obtain ⟨p', hp', -⟩ := exists_prepare_permuted hperm hstar hnames hp
    exact ⟨p', hp'⟩
  · rintro ⟨p', hp'⟩
    obtain ⟨p, hp, -⟩ := exists_prepare_permuted hback hstar hnames' hp'
    exact ⟨p, hp⟩
  · obtain ⟨p'', hp'', hsame⟩ := exists_prepare_permuted hperm hstar hnames hp
    obtain rfl : p' = p'' := Except.ok.inj (hp'.symm.trans hp'')
    exact hsame

/-- The marks that pupils got, each once and in order, are the same with the tables swapped. -/
theorem drain_permuted_sample :
    let fs := Sample.files
    let q := { orderedQuery with sources := [.table "marks", .table "Pupils"] }
    (orderedQuery.sources.Perm q.sources ∧ orderedQuery.items ≠ [.star] ∧
      ∀ ts, sourceTables sampleCatalog [] orderedQuery.sources = .ok ts →
        (ts.map fun t => Name.canonical t.name).Nodup) ∧
    ∃ p', prepare fs sampleCatalog q = .ok p' ∧ p'.labels = orderedPrepared.labels ∧
      ((p'.cursor.drain fs).2.1 = none →
        (p'.cursor.drain fs).1 = (orderedPrepared.cursor.drain fs).1) := by
  intro fs q
  have hperm : orderedQuery.sources.Perm q.sources := .swap ..
  have hstar : orderedQuery.items ≠ [.star] := by
    intro h
    cases h
  have hnames : ∀ ts, sourceTables sampleCatalog [] orderedQuery.sources = .ok ts →
      (ts.map fun t => Name.canonical t.name).Nodup := by
    intro ts hts
    have hboth : sourceTables sampleCatalog [] orderedQuery.sources =
        .ok [Sample.pupils, Sample.marks] := rfl
    obtain rfl := Except.ok.inj (hboth.symm.trans hts)
    decide +kernel
  obtain ⟨hiff, hall⟩ := drain_permuted hperm hstar hnames
  obtain ⟨p', hp'⟩ := hiff.mp ⟨_, prepare_orderedQuery⟩
  obtain ⟨hlabels, hsame⟩ := hall _ p' prepare_orderedQuery hp'
  refine ⟨⟨hperm, hstar, hnames⟩, p', hp', hlabels, fun hend' => ?_⟩
  have hwidth : ∀ t ∈ orderedPrepared.plan.tables, ∀ r ∈ (tableRows fs t).rows,
      r.width = t.columns.length :=
    List.forall_mem_cons.mpr ⟨by decide, List.forall_mem_singleton.mpr (by decide)⟩
  have hdrain := @Cursor.drain_of_start fs orderedPrepared.cursor rfl
  have hend : (orderedPrepared.cursor.drain fs).2.1 = none :=
    (congrArg Yield.error hdrain).trans (by decide)
  exact ((hsame hwidth hend hend').2 (List.cons_ne_nil _ _)).symm

/-! ### A document that gives two tables one number -/

/-- A stored catalog in which the name `x` leads to a table called `A`, because both have the number
1, while the name `a` leads to a table called `a`. -/
def twins : Snapshot where
  lastId := 2
  savedAt := "2024-05-01T10:00:00Z"
  tables := [⟨1, "x", [.named "c"], ⟨"t.csv"⟩⟩, ⟨1, "A", [.named "c"], ⟨"t.csv"⟩⟩,
    ⟨2, "a", [.named "d"], ⟨"t.csv"⟩⟩]

/-- The directory with that document, and a data file beside it. -/
def twinFiles : Files :=
  { entries := [(["t.csv"], .file 1), (["db"], .directory), (["db", "catalog.json"], .file 0)]
    contents := [.text (Snapshot.Format.text twins), .text "1\n"] }

/-- The column `c` of the table `a`, which only the table called `A` has. -/
def twinQuery : Select where
  items := [.expr (.column { table := some "a", column := "c" })]
  sources := [.table "x", .table "a"]

/-- A reference means a column of the first table of its name, so a query about tables whose names
are two spellings of one can be prepared in one order of FROM only. -/
theorem not_drain_permuted :
    ¬ ∀ (fs : Files) (root : Path) (catalog : Catalog) (q : Select) (sources' : List Source),
      Catalog.openIn fs root = .ok catalog → q.sources.Perm sources' → q.items ≠ [.star] →
        ((∃ p, prepare fs catalog q = .ok p) ↔
          ∃ p', prepare fs catalog { q with sources := sources' } = .ok p') := by
  intro hclaim
  let c : Catalog := { tables := twins.tables, lastId := twins.lastId }
  have hread : twinFiles.read ((⟨"db"⟩ : Path).join Snapshot.fileName) =
      .ok (.text (Snapshot.Format.text (c.snapshot twins.savedAt))) := rfl
  have hreadable : twins.Readable := ⟨by decide +kernel, by decide, by decide +kernel⟩
  have hopen : Catalog.openIn twinFiles ⟨"db"⟩ =
      .ok (Catalog.ofSnapshot ⟨"db/catalog.json"⟩ twins) :=
    (Catalog.openIn_of_read hread).mpr ⟨hreadable, rfl⟩
  have hiff := hclaim _ _ _ twinQuery [.table "a", .table "x"] hopen (.swap ..) nofun
  have hgood : (prepare twinFiles (Catalog.ofSnapshot ⟨"db/catalog.json"⟩ twins)
      twinQuery).toOption.isSome = true := by decide +kernel
  have hbad : (prepare twinFiles (Catalog.ofSnapshot ⟨"db/catalog.json"⟩ twins)
      { twinQuery with sources := [.table "a", .table "x"] }).toOption.isSome = false := by
    decide +kernel
  obtain ⟨p, hp⟩ := Option.isSome_iff_exists.mp hgood
  obtain ⟨p', hp'⟩ := hiff.mp ⟨p, toOption_eq_some_iff.mp hp⟩
  rw [hp'] at hbad
  cases hbad

end Plan

end FlatQuery
