import FlatQuery.Plan.Assemble
import FlatQuery.Proofs.Outcome

/-!
# What a SELECT list is

A list that is accepted is a star alone, or columns and then aggregate calls (`Reads`); under
GROUP BY its columns are among those that are grouped by.
-/

namespace FlatQuery.SelectList

open Outcome

/-- That a SELECT list and a GROUP BY list mean what has been made of them. -/
inductive Reads : List SelectItem → List Expr → SelectList → Prop
  | star : Reads [.star] [] (.star none)
  | tableStar (name : String) : Reads [.tableStar name] [] (.star (some (Name.canonical name)))
  | listed {columns keys : List ColumnRef} {calls : List Expr} {aggregates : List Aggregate}
      (hcalls : List.Forall₂ (fun e a => aggregate? e = .ok (some a)) calls aggregates)
      (hsub : keys = [] ∨ ∀ c ∈ columns.map (·.canonical), c ∈ keys.map (·.canonical)) :
      Reads (columns.map (fun c => .expr (.column c)) ++ calls.map .expr) (keys.map .column)
        (.listed (columns.map (·.canonical)) (keys.map (·.canonical)) aggregates)

theorem Reads.items_eq_star {items : List SelectItem} {groupBy : List Expr}
    (h : Reads items groupBy (.star none)) : items = [.star] := by
  cases h
  rfl

theorem exists_of_groupColumns {es : List Expr} {cs : List ColumnRef}
    (h : groupColumns es = .ok cs) :
    ∃ keys : List ColumnRef, es = keys.map .column ∧ cs = keys.map (·.canonical) := by
  induction es generalizing cs with
  | nil =>
    cases h
    exact ⟨[], rfl, rfl⟩
  | cons e es ih =>
    cases e with
    | column c =>
      obtain ⟨cs', hcs, h⟩ := bind_eq_ok_iff.mp h
      cases h
      obtain ⟨keys, rfl, rfl⟩ := ih hcs
      exact ⟨c :: keys, rfl, rfl⟩
    | _ => cases h

theorem exists_of_split {withAggregates after : Bool} {items : List SelectItem}
    {cs : List ColumnRef} {as : List Aggregate}
    (h : split withAggregates after items = .ok (cs, as)) :
    ∃ (columns : List ColumnRef) (calls : List Expr),
      items = columns.map (fun c => .expr (.column c)) ++ calls.map .expr ∧
      cs = columns.map (·.canonical) ∧
      List.Forall₂ (fun e a => aggregate? e = .ok (some a)) calls as ∧
      (after = true → columns = []) := by
  induction items generalizing after cs as with
  | nil =>
    cases h
    exact ⟨[], [], rfl, rfl, .nil, fun _ => rfl⟩
  | cons item rest ih =>
    cases item with
    | expr e =>
      obtain ⟨aggregate, he, h⟩ := bind_eq_ok_iff.mp h
      cases aggregate with
      | some a =>
        obtain ⟨⟨cs', as'⟩, hrest, h⟩ := bind_eq_ok_iff.mp h
        cases h
        obtain ⟨columns, calls, rfl, rfl, hcalls, hafter⟩ := ih hrest
        obtain rfl := hafter rfl
        exact ⟨[], e :: calls, rfl, rfl, .cons he hcalls, fun _ => rfl⟩
      | none =>
        cases e with
        | column c =>
          cases after with
          | true => cases h
          | false =>
            obtain ⟨⟨cs', as'⟩, hrest, h⟩ := bind_eq_ok_iff.mp h
            cases h
            obtain ⟨columns, calls, rfl, rfl, hcalls, -⟩ := ih hrest
            exact ⟨c :: columns, calls, rfl, rfl, hcalls, fun ha => nomatch ha⟩
        | _ => cases h
    | _ => cases h

theorem reads_of_analyse {items : List SelectItem} {groupBy : List Expr} {list : SelectList}
    (h : analyse items groupBy = .ok list) : Reads items groupBy list := by
  unfold analyse at h
  split at h
  · cases h
  · rename_i first rest
    obtain ⟨cs, hcs, h⟩ := bind_eq_ok_iff.mp h
    obtain ⟨keys, rfl, rfl⟩ := exists_of_groupColumns hcs
    split at h
    -- a star is the only item, and nothing is grouped
    · rename_i table hstar hrest
      split at h
      · rename_i hempty
        cases h
        obtain rfl : keys = [] := by simpa using hempty
        cases first with
        | star =>
          cases hstar
          exact .star
        | tableStar name =>
          cases hstar
          exact .tableStar name
        | expr e => cases hstar
      · cases h
    · obtain ⟨⟨cs', aggregates⟩, hsplit, h⟩ := bind_eq_ok_iff.mp h
      obtain ⟨columns, calls, hitems, rfl, hcalls, -⟩ := exists_of_split hsplit
      rw [hitems]
      simp only at h
      split at h
      · split at h
        · rename_i hempty
          cases h
          exact .listed hcalls (.inl (by simpa using hempty))
        · cases h
      · rename_i hfind
        cases h
        exact .listed hcalls (.inr fun c hc => by simpa using List.find?_eq_none.mp hfind c hc)

theorem call_of_aggregate {e argument : Expr}
    (h : aggregate? e = .ok (some { function := .sum, argument := some argument })) :
    ∃ name, e = .call name [.expr argument] ∧ Name.canonical name = "sum" := by
  unfold aggregate? at h
  split at h
  · rename_i name args
    split at h
    · cases h
    · cases h
    · rename_i f e _ hf
      cases h
      exact ⟨name, rfl, (beq_iff_eq.mp (List.find?_eq_some_iff_append.mp hf).1).symm⟩
    · cases h
  · cases h

theorem eq_of_sumsOf {aggregates : List Aggregate} {sums : List Expr} {labels : List String}
    (h : Plan.sumsOf aggregates = .ok (sums, labels)) :
    aggregates = sums.map (fun e => { function := .sum, argument := some e }) ∧
      labels = aggregates.map (·.label) := by
  induction aggregates generalizing sums labels with
  | nil =>
    cases h
    exact ⟨rfl, rfl⟩
  | cons a aggregates ih =>
    rw [Plan.sumsOf] at h
    split at h
    · rename_i argument hfunction hargument
      obtain ⟨⟨es, ls⟩, hrest, h⟩ := bind_eq_ok_iff.mp h
      cases h
      obtain ⟨hes, hls⟩ := ih hrest
      obtain ⟨function, argument'⟩ := a
      cases hfunction
      cases hargument
      exact ⟨congrArg _ hes, congrArg _ hls⟩
    · cases h

/-- The calls of a list whose aggregates can be computed are calls of SUM. -/
theorem calls_of_sumsOf {calls : List Expr} {aggregates : List Aggregate} {sums : List Expr}
    {labels : List String}
    (hcalls : List.Forall₂ (fun e a => aggregate? e = .ok (some a)) calls aggregates)
    (h : Plan.sumsOf aggregates = .ok (sums, labels)) :
    List.Forall₂ (fun e argument => ∃ name, e = .call name [.expr argument] ∧
      Name.canonical name = "sum") calls sums := by
  rw [(eq_of_sumsOf h).1, List.forall₂_map_right_iff] at hcalls
  exact hcalls.imp fun e argument he => call_of_aggregate he

theorem Reads.aggregates_eq_nil {items : List SelectItem} {groupBy : List Expr}
    {columns keys : List ColumnRef} {aggregates : List Aggregate}
    (h : Reads items groupBy (.listed columns keys aggregates))
    (hnone : ∀ item ∈ items, isAggregateItem item = false) : aggregates = [] := by
  cases h with
  | listed hcalls hsub =>
    cases hcalls with
    | nil => rfl
    | @cons e a calls _ he _ =>
      have hitem := hnone (.expr e) (List.mem_append_right _ (List.mem_cons_self ..))
      unfold aggregate? at he
      split at he
      · rename_i name args
        have hname : AggregateFunction.ofName? name = none := by
          simpa [isAggregateItem] using hitem
        simp only [hname] at he
        cases he
      · cases he

end FlatQuery.SelectList
