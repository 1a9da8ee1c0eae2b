import FlatQuery.Proofs.Plan.Stages
import Mathlib.Data.List.Perm.Basic

/-!
# Prepared queries

What a prepared query is made of: the plan is assembled stage by stage (`ofSelect_eq_ok_iff`), its
columns are bound, and the data files of its tables are opened (`prepare_eq_ok_iff`).  Only the last
of these looks at the files.
-/

namespace FlatQuery.Plan

open Rows Outcome

variable {fs : Files} {catalog : Catalog} {q : Select} {p : Plan} {op : Operator}

/-! ### Assembling -/

theorem ofSelect_eq_ok_iff : ofSelect catalog q = .ok p ↔ ∃ list tables joined chosen,
    SelectList.analyse q.items q.groupBy = .ok list ∧ q.sources ≠ [] ∧
      sourceTables catalog [] q.sources = .ok tables ∧ base tables q.condition = .ok joined ∧
        selected list tables joined = .ok chosen ∧
          ordered q.orderBy (deduplicated q.distinct chosen) = .ok p := by
  unfold ofSelect
  constructor
  · intro h
    obtain ⟨list, hlist, h⟩ := bind_eq_ok_iff.mp h
    split at h
    · cases h
    · rename_i hsome
      obtain ⟨tables, htables, h⟩ := bind_eq_ok_iff.mp h
      obtain ⟨joined, hjoined, h⟩ := bind_eq_ok_iff.mp h
      obtain ⟨chosen, hchosen, h⟩ := bind_eq_ok_iff.mp h
      refine ⟨list, tables, joined, chosen, hlist, fun hnil => ?_, htables, hjoined, hchosen, h⟩
      exact hsome (List.isEmpty_iff.mpr hnil)
  · rintro ⟨list, tables, joined, chosen, hlist, hsome, htables, hjoined, hchosen, h⟩
    have hempty : ¬ q.sources.isEmpty = true := fun he => hsome (List.isEmpty_iff.mp he)
    simp only [hlist, htables, hjoined, hchosen, h, ok_bind, if_neg hempty]

theorem prepare_eq_ok_iff {prepared : Prepared} : prepare fs catalog q = .ok prepared ↔
    ofSelect catalog q = .ok prepared.plan ∧ prepared.labels = prepared.plan.labels ∧
      prepared.plan.instantiate fs = .ok prepared.cursor := by
  unfold prepare
  constructor
  · intro h
    obtain ⟨plan, hplan, h⟩ := bind_eq_ok_iff.mp h
    split at h
    · rename_i cursor hcursor
      cases h
      exact ⟨hplan, rfl, hcursor⟩
    · cases h
  · rintro ⟨hplan, hlabels, hcursor⟩
    obtain ⟨plan, labels, cursor⟩ := prepared
    obtain rfl : labels = plan.labels := hlabels
    have hcursor' : plan.instantiate fs = .ok cursor := hcursor
    simp only [hplan, ok_bind, hcursor']
    rfl

/-! ### Sources -/

/-- The tables of a FROM list: those of the names, all of them different. -/
theorem sourceTables_eq_ok_iff {seen : List String} {sources : List Source} {ts : List Table} :
    sourceTables catalog seen sources = .ok ts ↔
      List.Forall₂ (fun s t => ∃ name, s = .table name ∧ catalog.get name = .ok t) sources ts ∧
        (ts.map (·.name)).Nodup ∧ ∀ t ∈ ts, t.name ∉ seen := by
  -- on the FROM list, for all names seen before: those after a table must avoid its name too
  induction sources generalizing seen ts with
  | nil =>
    rw [List.forall₂_nil_left_iff]
    constructor
    · intro h
      cases h
      exact ⟨rfl, List.nodup_nil, fun t ht => nomatch ht⟩
    · rintro ⟨rfl, -⟩
      rfl
  | cons s sources ih =>
    rw [List.forall₂_cons_left_iff]
    constructor
    · intro h
      cases s with
      | other text => cases h
      | table name =>
        simp only [sourceTables] at h
        split at h
        · cases h
        · rename_i t hget
          split at h
          · cases h
          · rename_i hseen
            obtain ⟨rest, hrest, h⟩ := bind_eq_ok_iff.mp h
            cases h
            obtain ⟨hall, hnodup, hnew⟩ := ih.mp hrest
            have hnot : t.name ∉ seen := fun hmem => hseen (List.contains_iff_mem.mpr hmem)
            refine ⟨⟨t, rest, ⟨name, rfl, hget⟩, hall, rfl⟩, ?_, ?_⟩
            · refine List.nodup_cons.mpr ⟨fun hmem => ?_, hnodup⟩
              obtain ⟨u, hu, hname⟩ := List.mem_map.mp hmem
              exact hnew u hu (hname ▸ List.mem_cons_self ..)
            · exact List.forall_mem_cons.mpr
                ⟨hnot, fun u hu hmem => hnew u hu (List.mem_cons_of_mem _ hmem)⟩
    · rintro ⟨⟨t, rest, ⟨name, rfl, hget⟩, hall, rfl⟩, hnodup, hnew⟩
      obtain ⟨hnot, hrest⟩ := List.forall_mem_cons.mp hnew
      obtain ⟨hother, hnodup⟩ := List.nodup_cons.mp hnodup
      have hnew' : ∀ u ∈ rest, u.name ∉ t.name :: seen := by
        intro u hu hmem
        rcases List.mem_cons.mp hmem with hname | hmem
        · exact hother (List.mem_map.mpr ⟨u, hu, hname⟩)
        · exact hrest u hu hmem
      have hseen : ¬ seen.contains t.name = true := fun h => hnot (List.contains_iff_mem.mp h)
      simp only [sourceTables, hget, if_neg hseen, ih.mpr ⟨hall, hnodup, hnew'⟩, ok_bind,
        pure_eq_ok]

/-- The order of a FROM list does not matter for whether its tables are found. -/
theorem exists_sourceTables_perm {sources sources' : List Source} {ts : List Table}
    (hperm : sources.Perm sources') (h : sourceTables catalog [] sources = .ok ts) :
    ∃ ts', sourceTables catalog [] sources' = .ok ts' ∧ ts.Perm ts' := by
  obtain ⟨hall, hnodup, -⟩ := sourceTables_eq_ok_iff.mp h
  obtain ⟨ts', hall', hts⟩ := List.perm_comp_forall₂ hperm.symm hall
  refine ⟨ts', sourceTables_eq_ok_iff.mpr ⟨hall', ?_, fun t _ => List.not_mem_nil⟩, hts.symm⟩
  exact (hts.map _).nodup_iff.mpr hnodup

/-! ### What is selected -/

variable {ts : List Table} {m : Plan}

theorem selected_star_cases {table : Option String}
    (hm : selected (.star table) ts p = .ok m) : m = p ∨ ∃ columns, m = .project p columns := by
  cases table with
  | none =>
    cases hm
    exact .inl rfl
  | some name =>
    simp only [selected] at hm
    split at hm
    · cases hm
    · rename_i t ht
      cases hm
      split
      · exact .inl rfl
      · exact .inr ⟨_, rfl⟩

/-- What a list of columns and aggregates selects does not depend on the tables. -/
theorem selected_listed_cases (columns keys : List ColumnRef) (aggregates : List Aggregate) :
    (∃ e, ∀ ts p, selected (.listed columns keys aggregates) ts p = .error e) ∨
    (∃ sums labels, sumsOf aggregates = .ok (sums, labels) ∧
      ∀ ts p, selected (.listed columns keys aggregates) ts p =
        .ok (.groupSum p (if keys.isEmpty then columns else keys) columns sums labels)) ∨
    (aggregates = [] ∧ keys = [] ∧ ∀ ts p,
      selected (.listed columns keys aggregates) ts p = .ok (.project p columns)) := by
  cases hgrouped : (SelectList.listed columns keys aggregates).isGrouped with
  | true =>
    cases hsums : sumsOf aggregates with
    | error e =>
      refine .inl ⟨e, fun ts p => ?_⟩
      simp only [selected, hgrouped, if_true, grouped, hsums, error_bind]
    | ok outcome =>
      refine .inr (.inl ⟨outcome.1, outcome.2, rfl, fun ts p => ?_⟩)
      simp only [selected, hgrouped, if_true, grouped, hsums, ok_bind, pure_eq_ok]
  | false =>
    have hboth : aggregates = [] ∧ keys = [] := by simpa [SelectList.isGrouped] using hgrouped
    refine .inr (.inr ⟨hboth.1, hboth.2, fun ts p => ?_⟩)
    simp only [selected, hgrouped, Bool.false_eq_true, if_false]

/-- The columns of an accepted list are among those that are grouped by. -/
theorem columns_subset_of_analyse {items : List SelectItem} {groupBy : List Expr}
    {columns keys : List ColumnRef} {aggregates : List Aggregate}
    (h : SelectList.analyse items groupBy = .ok (.listed columns keys aggregates)) :
    ∀ c ∈ columns, c ∈ if keys.isEmpty then columns else keys := by
  intro c hc
  split
  · exact hc
  · rename_i hkeys
    cases SelectList.reads_of_analyse h with
    | listed _ hsub =>
      rcases hsub with rfl | hsub
      · exact absurd rfl hkeys
      · exact hsub c hc

theorem tables_of_selected {list : SelectList} (h : selected list ts p = .ok m) :
    m.tables = p.tables := by
  cases list with
  | star table =>
    rcases selected_star_cases h with rfl | ⟨columns, rfl⟩
    · rfl
    · rfl
  | listed columns keys aggregates =>
    rcases selected_listed_cases columns keys aggregates with
      ⟨e, hcase⟩ | ⟨sums, labels, -, hcase⟩ | ⟨-, -, hcase⟩
    · rw [hcase] at h
      cases h
    · rw [hcase] at h
      cases h
      rfl
    · rw [hcase] at h
      cases h
      rfl

/-! ### Order -/

theorem tables_deduplicated (distinct : Bool) (p : Plan) :
    (deduplicated distinct p).tables = p.tables := by
  cases distinct with
  | true => rfl
  | false => rfl

theorem labels_deduplicated (distinct : Bool) (p : Plan) :
    (deduplicated distinct p).labels = p.labels := by
  cases distinct with
  | true => rfl
  | false => rfl

/-- Without ORDER BY the plan is left as it is, and with it the plan is sorted by keys that are found
among its labels. -/
theorem ordered_eq_ok_iff {items : List OrderItem} :
    ordered items p = .ok m ↔ (items = [] ∧ m = p) ∨
      (items ≠ [] ∧ ∃ ks, orderKeys items p.labels = .ok ks ∧ m = .sort p ks) := by
  cases items with
  | nil => simp [ordered, eq_comm]
  | cons item items =>
    rw [ordered, List.isEmpty_cons, if_neg Bool.false_ne_true, bind_eq_ok_iff]
    simp only [pure_eq_ok, Except.ok.injEq, eq_comm, List.cons_ne_nil, ne_eq, false_and, false_or,
      not_false_eq_true, true_and]

theorem tables_of_ordered {items : List OrderItem} (h : ordered items p = .ok m) :
    m.tables = p.tables := by
  rcases ordered_eq_ok_iff.mp h with ⟨-, rfl⟩ | ⟨-, ks, -, rfl⟩
  · rfl
  · rfl

theorem tables_of_ofSelect (h : ofSelect catalog q = .ok p) :
    sourceTables catalog [] q.sources = .ok p.tables := by
  obtain ⟨list, tables, joined, chosen, -, -, htables, hjoined, hchosen, hordered⟩ :=
    ofSelect_eq_ok_iff.mp h
  rw [tables_of_ordered hordered, tables_deduplicated, tables_of_selected hchosen,
    tables_of_base hjoined]
  exact htables

/-! ### Setting up -/

theorem tables_of_bound (h : p.bound = .ok op) : op.tables = p.tables := by
  induction p generalizing op with
  | scan t =>
    cases h
    rfl
  | select input t on ih =>
    obtain ⟨i, hi, h⟩ := bind_eq_ok_iff.mp h
    obtain ⟨on', -, h⟩ := bind_eq_ok_iff.mp h
    cases h
    have htables := ih hi
    exact htables
  | join l r on ihl ihr =>
    obtain ⟨i, hi, h⟩ := bind_eq_ok_iff.mp h
    obtain ⟨j, hj, h⟩ := bind_eq_ok_iff.mp h
    obtain ⟨on', -, h⟩ := bind_eq_ok_iff.mp h
    cases h
    exact congrArg₂ (· ++ ·) (ihl hi) (ihr hj)
  | filter input on ih =>
    obtain ⟨i, hi, h⟩ := bind_eq_ok_iff.mp h
    obtain ⟨on', -, h⟩ := bind_eq_ok_iff.mp h
    cases h
    have htables := ih hi
    exact htables
  | groupSum input groupBy shown sums labels ih =>
    obtain ⟨i, hi, h⟩ := bind_eq_ok_iff.mp h
    obtain ⟨g, -, h⟩ := bind_eq_ok_iff.mp h
    obtain ⟨w, -, h⟩ := bind_eq_ok_iff.mp h
    obtain ⟨u, -, h⟩ := bind_eq_ok_iff.mp h
    cases h
    have htables := ih hi
    exact htables
  | project input columns ih =>
    obtain ⟨i, hi, h⟩ := bind_eq_ok_iff.mp h
    obtain ⟨indexes, -, h⟩ := bind_eq_ok_iff.mp h
    cases h
    have htables := ih hi
    exact htables
  | distinct input ih =>
    obtain ⟨i, hi, h⟩ := bind_eq_ok_iff.mp h
    cases h
    have htables := ih hi
    exact htables
  | sort input keys ih =>
    obtain ⟨i, hi, h⟩ := bind_eq_ok_iff.mp h
    cases h
    have htables := ih hi
    exact htables

/-- A plan can be set up exactly if it can be bound and the data files of its tables opened. -/
theorem exists_instantiate_iff : (∃ c, p.instantiate fs = .ok c) ↔
    (∃ op, p.bound = .ok op) ∧ ∀ t ∈ p.tables, ∃ h, openTable fs t = .ok h := by
  constructor
  · rintro ⟨c, hc⟩
    obtain ⟨hbound, hstart⟩ := bound_of_instantiate hc
    refine ⟨⟨c.op, hbound⟩, fun t ht => ?_⟩
    rw [← tables_of_bound hbound] at ht
    exact c.op.opens_of_start hstart t ht
  · rintro ⟨⟨op, hop⟩, hopens⟩
    rw [← tables_of_bound hop] at hopens
    obtain ⟨s, hs⟩ := op.exists_start hopens
    exact ⟨_, instantiate_of_bound hop hs⟩

/-- The operators of a plan that has been set up can start, and its cursor drains to what they hand
out. -/
theorem drain_of_bound {c : Cursor} (hc : p.instantiate fs = .ok c) (hop : p.bound = .ok op) :
    (∃ s, op.start? fs = .ok s) ∧
      (⟨(c.drain fs).1, (c.drain fs).2.1⟩ : Yield) = op.yield fs := by
  obtain ⟨hbound, hstart⟩ := bound_of_instantiate hc
  obtain rfl : c.op = op := Except.ok.inj (hbound.symm.trans hop)
  exact ⟨⟨_, hstart⟩, Cursor.drain_of_start hstart⟩

end FlatQuery.Plan
