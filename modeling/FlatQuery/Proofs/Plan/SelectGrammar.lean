import FlatQuery.Proofs.Plan.SelectList

/-!
# Which SELECT lists are accepted

A list is accepted if it is a star alone, or columns and then aggregate calls (`Calls`), and GROUP BY
suits it; and what is made of it are these parts (`analyse_eq_ok_iff`).  Every list that is accepted
has that form (`reads_of_analyse`); here is shown that every list of that form is accepted.
-/

namespace FlatQuery.SelectList

open Outcome
open Name (canonical)

/-! ### Aggregate calls -/

/-- That an expression calls an aggregate: the name of the function, however it is spelled, and one
argument, or the star of COUNT. -/
inductive Calls : Expr → Aggregate → Prop
  | star {name : String} (h : canonical name = "count") :
      Calls (.call name [.star]) { function := .count, argument := none }
  | expr {name : String} {f : AggregateFunction} (h : canonical name = f.name) (e : Expr) :
      Calls (.call name [.expr e]) { function := f, argument := some e }

theorem ofName?_eq_some_iff {name : String} {f : AggregateFunction} :
    AggregateFunction.ofName? name = some f ↔ canonical name = f.name := by
  constructor
  · intro h
    exact (beq_iff_eq.mp (List.find?_eq_some_iff_append.mp h).1).symm
  · intro h
    rw [AggregateFunction.ofName?, h]
    cases f with
    | sum => rfl
    | count => rfl

theorem aggregate?_eq_some_iff {e : Expr} {a : Aggregate} :
    aggregate? e = .ok (some a) ↔ Calls e a := by
  constructor
  · intro h
    unfold aggregate? at h
    split at h
    · next name args =>
      split at h
      · cases h
      · next hname =>
        cases h
        exact .star (ofName?_eq_some_iff.mp hname)
      · next f argument hname =>
        cases h
        exact .expr (ofName?_eq_some_iff.mp hname) argument
      · cases h
    · cases h
  · intro h
    cases h with
    | @star name h =>
      have hname : AggregateFunction.ofName? name = some .count := ofName?_eq_some_iff.mpr h
      unfold aggregate?
      simp only [hname]
    | @expr name f h argument =>
      have hname : AggregateFunction.ofName? name = some f := ofName?_eq_some_iff.mpr h
      unfold aggregate?
      simp only [hname]

/-! ### Lists -/

theorem groupColumns_map (keys : List ColumnRef) :
    groupColumns (keys.map .column) = .ok (keys.map (·.canonical)) := by
  induction keys with
  | nil => rfl
  | cons k keys ih => rw [List.map_cons, groupColumns, ih]; rfl

variable {calls : List Expr} {aggregates : List Aggregate}

theorem split_calls (h : List.Forall₂ Calls calls aggregates) (withAggregates after : Bool) :
    split withAggregates after (calls.map .expr) = .ok ([], aggregates) := by
  induction h generalizing after with
  | nil => rfl
  | cons hcall _ ih =>
    simp only [List.map_cons, split, aggregate?_eq_some_iff.mpr hcall, ih true, ok_bind, pure_eq_ok]

theorem split_append (h : List.Forall₂ Calls calls aggregates) (withAggregates : Bool)
    (columns : List ColumnRef) :
    split withAggregates false (columns.map (fun c => .expr (.column c)) ++ calls.map .expr) =
      .ok (columns.map (·.canonical), aggregates) := by
  induction columns with
  | nil => exact split_calls h withAggregates false
  | cons c columns ih =>
    have hcolumn : aggregate? (.column c) = .ok none := rfl
    simp only [List.map_cons, List.cons_append, split, hcolumn, ok_bind, ih, pure_eq_ok,
      Bool.false_eq_true, if_false]

theorem analyse_of_reads {items : List SelectItem} {groupBy : List Expr} {list : SelectList}
    (hne : items ≠ []) (h : Reads items groupBy list) : analyse items groupBy = .ok list := by
  cases h with
  | star => rfl
  | tableStar name => rfl
  | @listed columns keys calls aggregates hcalls hsub =>
    have hsplit := fun w => split_append (hcalls.imp fun _ _ => aggregate?_eq_some_iff.mp) w columns
    have hstars : ∀ item ∈ columns.map (fun c => SelectItem.expr (.column c)) ++ calls.map .expr,
        starTable? item = none := by
      intro item hitem
      rcases List.mem_append.mp hitem with h | h
      · obtain ⟨c, -, rfl⟩ := List.mem_map.mp h
        rfl
      · obtain ⟨e, -, rfl⟩ := List.mem_map.mp h
        rfl
    obtain ⟨first, rest, hitems⟩ := List.exists_cons_of_ne_nil hne
    rw [hitems] at hsplit hstars ⊢
    have hfirst := hstars first (List.mem_cons_self ..)
    simp only [analyse, groupColumns_map, ok_bind, hfirst, hsplit]
    split
    · next missing hmissing =>
      rcases hsub with rfl | hsub
      · rfl
      · have hmem := List.mem_of_find?_eq_some hmissing
        have hnot := List.find?_some hmissing
        rw [List.contains_iff_mem.mpr (hsub missing hmem)] at hnot
        cases hnot
    · rfl

/-- **Exactly the lists of the grammar are accepted.**  A SELECT list is accepted if it is a star
alone, without GROUP BY, or columns and then aggregate calls, with columns in GROUP BY, if that is not
empty, among which the selected ones are.  What is made of it are the parts, each in its order, in
canonical form and as often as it is listed. -/
theorem analyse_eq_ok_iff {items : List SelectItem} {groupBy : List Expr} {list : SelectList} :
    analyse items groupBy = .ok list ↔
      items = [.star] ∧ groupBy = [] ∧ list = .star none ∨
      (∃ t, items = [.tableStar t] ∧ groupBy = [] ∧ list = .star (some (canonical t))) ∨
      items ≠ [] ∧ ∃ (columns keys : List ColumnRef) (calls : List Expr)
        (aggregates : List Aggregate),
        items = columns.map (fun c => .expr (.column c)) ++ calls.map .expr ∧
        groupBy = keys.map .column ∧
        List.Forall₂ Calls calls aggregates ∧
        (keys ≠ [] → ∀ c ∈ columns, ∃ k ∈ keys, k.canonical = c.canonical) ∧
        list = .listed (columns.map (·.canonical)) (keys.map (·.canonical)) aggregates := by
  constructor
  · intro h
    have hne : items ≠ [] := by
      rintro rfl
      cases h
    cases reads_of_analyse h with
    | star => exact .inl ⟨rfl, rfl, rfl⟩
    | tableStar name => exact .inr (.inl ⟨name, rfl, rfl, rfl⟩)
    | @listed columns keys calls aggregates hcalls hsub =>
      refine .inr (.inr ⟨hne, columns, keys, calls, aggregates, rfl, rfl,
        hcalls.imp fun _ _ => aggregate?_eq_some_iff.mp, fun hkeys c hc => ?_, rfl⟩)
      have hmem := hsub.resolve_left hkeys _ (List.mem_map_of_mem hc)
      obtain ⟨k, hk, heq⟩ := List.mem_map.mp hmem
      exact ⟨k, hk, heq⟩
  · rintro (⟨rfl, rfl, rfl⟩ | ⟨t, rfl, rfl, rfl⟩ | ⟨hne, columns, keys, calls, aggregates, rfl, rfl,
      hcalls, hsub, rfl⟩)
    · rfl
    · rfl
    · refine analyse_of_reads hne (.listed
        (hcalls.imp fun _ _ => aggregate?_eq_some_iff.mpr) ?_)
      by_cases hkeys : keys = []
      · exact .inl hkeys
      · refine .inr fun column hcolumn => ?_
        obtain ⟨c, hc, rfl⟩ := List.mem_map.mp hcolumn
        obtain ⟨k, hk, heq⟩ := hsub hkeys c hc
        exact List.mem_map.mpr ⟨k, hk, heq⟩

end FlatQuery.SelectList
