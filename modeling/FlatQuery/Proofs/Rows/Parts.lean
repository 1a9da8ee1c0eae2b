import FlatQuery.Proofs.Rows.Kept
import FlatQuery.Proofs.Rows.Pieces

/-!
# What rows are made of

Every row that is handed out, before an error as well, comes from rows of the inputs: a test hands
out rows as they are, a join hands out two rows side by side, and gathering hands out rows it has
read.  None of this depends on how many fields the rows have.  A row of a product is cut into its
parts (`exists_parts_of_mem_product`), and a field is found in the part it belongs to as long as the
parts before have the widths of their tables (`getElem?_joined`).
-/

namespace FlatQuery.Rows

open Outcome

variable {y : Yield} {r o : Row}

/-! ### Rows of yields -/

theorem Yield.exists_of_mem_append {z : Yield} (h : r ∈ (y.append z).rows) :
    r ∈ y.rows ∨ r ∈ z.rows := by
  obtain ⟨rows, _ | e⟩ := y
  · exact List.mem_append.mp h
  · exact .inl h

theorem Yield.exists_of_mem_bind {f : Row → Yield} (h : r ∈ (y.bind f).rows) :
    ∃ a ∈ y.rows, r ∈ (f a).rows := by
  obtain ⟨rows, e⟩ := y
  induction rows with
  | nil => cases h
  | cons a rows ih =>
    have happend : r ∈ ((f a).append ((Yield.mk rows e).bind f)).rows := h
    rcases Yield.exists_of_mem_append happend with h | h
    · exact ⟨a, List.mem_cons_self .., h⟩
    · obtain ⟨b, hb, h⟩ := ih h
      exact ⟨b, List.mem_cons_of_mem _ hb, h⟩

theorem eq_of_mem_tested {on : Option Term} (h : o ∈ (tested on r).rows) : o = r := by
  unfold tested at h
  split at h
  · cases h
  · exact List.mem_singleton.mp h
  · cases h

theorem pick_of_mem_picked {indexes : List Nat} (h : o ∈ (picked indexes r).rows) :
    r.pick indexes = .ok o := by
  unfold picked at h
  split at h
  · cases h
  · rename_i hpick
    rw [hpick, List.mem_singleton.mp h]

theorem exists_of_mem_ofRows {outcome : Except Error (List Row)}
    (h : r ∈ (Yield.ofRows outcome).rows) : ∃ rows, outcome = .ok rows ∧ r ∈ rows := by
  cases outcome with
  | error e => cases h
  | ok rows => exact ⟨rows, rfl, h⟩

theorem mem_of_mem_deduplicating
    (h : r ∈ (Yield.ofRows (gatheredRows deduplicating y)).rows) : r ∈ y.rows := by
  obtain ⟨rows, hrows, h⟩ := exists_of_mem_ofRows h
  obtain ⟨-, rfl⟩ := gatheredRows_deduplicating.mp hrows
  exact List.mem_eraseDups.mp h

theorem mem_of_mem_sorting {ks : List SortKey}
    (h : r ∈ (Yield.ofRows (gatheredRows (sorting ks) y)).rows) : r ∈ y.rows := by
  obtain ⟨rows, hrows, h⟩ := exists_of_mem_ofRows h
  obtain ⟨-, hsort⟩ := gatheredRows_sorting.mp hrows
  exact (perm_and_pairwise_of_sortRows hsort).1.mem_iff.mp h

/-- Without sums, and grouped by some field at least, rows are shown as one row of their group. -/
theorem exists_of_mem_grouping {spec : GroupSpec} (hgroup : spec.group ≠ [])
    (hsums : spec.sums = []) (h : o ∈ (Yield.ofRows (gatheredRows (grouping spec) y)).rows) :
    ∃ r ∈ y.rows, o.fields.map some = fieldsAt spec.shown r := by
  obtain ⟨rows, hrows, h⟩ := exists_of_mem_ofRows h
  obtain ⟨-, groups, hsummary, rfl⟩ := gatheredRows_grouping hrows
  have hsome : ¬ (groups.isEmpty && spec.group.isEmpty && spec.shown.isEmpty) = true := by
    simp [hgroup]
  rw [GroupSpec.rows, if_neg hsome] at h
  obtain ⟨g, hg, rfl⟩ := List.mem_map.mp h
  obtain ⟨⟨r, hr, hshown⟩, htotals⟩ := hsummary.totals g hg
  rw [hsums] at htotals
  refine ⟨r, (List.mem_filter.mp hr).1, ?_⟩
  rw [← hshown, Group.toRow, List.forall₂_nil_left_iff.mp htotals, List.map_nil, List.append_nil]

/-! ### Rows of data files -/

theorem mem_of_mem_lineRows {path : String} {ls : List (Option String)}
    (h : r ∈ (lineRows path ls).rows) : r ∈ ls.filterMap lineRow? := by
  induction ls with
  | nil => cases h
  | cons l ls ih =>
    cases l with
    | none => cases h
    | some line =>
      rw [lineRows] at h
      split at h
      · rename_i hblank
        have hnone : lineRow? (some line) = none := by rw [lineRow?, if_pos hblank]
        rw [List.filterMap_cons_none hnone]
        exact ih h
      · rename_i hblank
        have hsome : lineRow? (some line) =
            some (Row.ofLine Row.separator (withoutLineEnd line)) := by
          rw [lineRow?, if_neg hblank]
        rw [List.filterMap_cons_some hsome]
        exact List.mem_cons.mpr ((List.mem_cons.mp h).imp_right ih)

theorem mem_dataRows {fs : Files} {t : Table} (h : r ∈ (tableRows fs t).rows) :
    r ∈ dataRows fs t := by
  unfold tableRows at h
  unfold dataRows
  split at h
  · cases h
  · rename_i handle hopen
    rw [hopen]
    unfold handleRows at h
    split at h
    · cases h
    · exact mem_of_mem_lineRows h

/-! ### Parts -/

/-- The fields of rows, one row after the other. -/
def joinedFields (parts : List Row) : List String :=
  parts.flatMap (·.fields)

theorem exists_parts_of_mem_product {xss : List (List Row)} (h : r ∈ product xss) :
    ∃ parts, List.Forall₂ (fun rows part => part ∈ rows) xss parts ∧
      r.fields = joinedFields parts := by
  induction xss generalizing r with
  | nil =>
    obtain rfl := List.mem_singleton.mp h
    exact ⟨[], .nil, rfl⟩
  | cons rows xss ih =>
    obtain ⟨a, ha, h⟩ := List.mem_flatMap.mp h
    obtain ⟨b, hb, rfl⟩ := List.mem_map.mp h
    obtain ⟨parts, hparts, hfields⟩ := ih hb
    exact ⟨a :: parts, .cons ha hparts, congrArg (a.fields ++ ·) hfields⟩

/-- What corresponds to two lists, one after the other, is cut where they meet. -/
theorem exists_append_of_forall₂ {α β : Type} {R : α → β → Prop} {xs ys : List α} {zs : List β}
    (h : List.Forall₂ R (xs ++ ys) zs) :
    ∃ us vs, zs = us ++ vs ∧ List.Forall₂ R xs us ∧ List.Forall₂ R ys vs := by
  induction xs generalizing zs with
  | nil => exact ⟨[], zs, rfl, .nil, h⟩
  | cons x xs ih =>
    obtain ⟨z, rest, hz, hrest, rfl⟩ := List.forall₂_cons_left_iff.mp h
    obtain ⟨us, vs, rfl, hus, hvs⟩ := ih hrest
    exact ⟨z :: us, vs, rfl, .cons hz hus, hvs⟩

theorem length_joinedFields {ts : List Table} {parts : List Row}
    (h : List.Forall₂ (fun t part => part.width = t.columns.length) ts parts) :
    (joinedFields parts).length = Scope.widthOf (ts.map .ofTable) := by
  induction h with
  | nil => rfl
  | @cons t part ts parts hpart _ ih =>
    rw [joinedFields, List.flatMap_cons, List.length_append, List.map_cons, Scope.widthOf_cons,
      Scope.width_ofTable, ← hpart]
    exact congrArg (part.width + ·) ih

/-- Behind parts as wide as their tables stand the fields of the next part, and nothing else if that
is the last one or has the field. -/
theorem getElem?_joined {ts : List Table} {front back : List Row} {j : Nat}
    (hfront : List.Forall₂ (fun t part => part.width = t.columns.length) ts front)
    (hpart : j < r.width ∨ back = []) :
    (joinedFields (front ++ r :: back))[Scope.widthOf (ts.map .ofTable) + j]? = r.fields[j]? := by
  rw [joinedFields, List.flatMap_append, List.flatMap_cons, ← length_joinedFields hfront,
    joinedFields, List.getElem?_append_right (Nat.le_add_right _ _), Nat.add_sub_cancel_left]
  rcases hpart with hlt | rfl
  · exact List.getElem?_append_left hlt
  · rw [List.flatMap_nil, List.append_nil]

end FlatQuery.Rows

namespace FlatQuery.Scope

/-! ### The first table that can be meant -/

variable {c : ColumnRef} {t : ScopeTable} {front back : List ScopeTable} {i j : Nat}

theorem eq_of_qualifiedIndex {column : String} {n : Nat}
    (h : qualifiedIndex? t.name column (front ++ t :: back) n = some i)
    (hfront : ∀ u ∈ front, u.name = t.name → u.columns.idxOf? column = none)
    (hj : t.columns.idxOf? column = some j) : i = n + widthOf front + j := by
  induction front generalizing n with
  | nil =>
    rw [List.nil_append, qualifiedIndex?, if_pos rfl, hj, Option.map_some] at h
    exact (Option.some.inj h).symm
  | cons u front ih =>
    obtain ⟨hu, hrest⟩ := List.forall_mem_cons.mp hfront
    rw [List.cons_append, qualifiedIndex?] at h
    split at h
    · rename_i hname
      rw [hu hname] at h
      cases h
    · rw [ih h hrest, widthOf_cons, Nat.add_assoc n]

/-- If a reference can be resolved, then it means the first table that can be meant. -/
theorem eq_of_resolve_first (h : (joined (front ++ t :: back)).resolve c = .ok i)
    (hfront : ∀ u ∈ front, ¬ heldBy c u = true) (ht : heldBy c t = true)
    (hj : t.columns.idxOf? (Name.canonical c.column) = some j) : i = widthOf front + j := by
  cases hq : c.qualifier?.map Name.canonical with
  | some name =>
    obtain ⟨rfl, -⟩ := (heldBy_of_qualifier hq t).mp ht
    simp only [resolve, hq] at h
    split at h
    · rename_i k hk
      cases h
      rw [eq_of_qualifiedIndex hk ?_ hj, Nat.zero_add]
      intro u hu hname
      refine Option.not_isSome_iff_eq_none.mp fun hsome => hfront u hu ?_
      exact (heldBy_of_qualifier hq u).mpr ⟨hname.symm, hsome⟩
    · cases h
  | none =>
    simp only [heldBy_of_unqualified hq] at hfront
    simp only [resolve, hq] at h
    split at h
    · cases h
    · rename_i k hk
      cases h
      rw [indexes_append, indexes_eq_nil_iff.mpr hfront, List.nil_append, indexes, hj,
        Option.map_some, Option.toList_some, List.singleton_append, Nat.zero_add] at hk
      exact (List.cons.inj hk).1.symm
    · cases h

end FlatQuery.Scope
