import FlatQuery.Proofs.Name
import FlatQuery.Proofs.Query.Truth
import Mathlib.Data.List.Nodup

/-!
# Where references point

A reference in full points at a column of one table (`Scope.Located`), and keeps pointing at it
whichever of the tables around that table are in scope (`Located.narrow`, `Located.resolve_joined`,
`Located.resolve_single`); only the index of the field moves.  Every reference that can be resolved
has such a form (`located_of_qualify`).

A table may have a blank name.  A reference to one of its columns then counts as one without a
table, so it has to be the only column of its name.
-/

namespace FlatQuery.Scope

open Outcome

/-! ### Positions -/

@[simp] theorem widthOf_nil : widthOf [] = 0 := rfl

@[simp] theorem widthOf_cons (t : ScopeTable) (ts : List ScopeTable) :
    widthOf (t :: ts) = t.width + widthOf ts := rfl

@[simp] theorem widthOf_append (xs ys : List ScopeTable) :
    widthOf (xs ++ ys) = widthOf xs + widthOf ys := by
  induction xs with
  | nil => rw [List.nil_append, widthOf_nil, Nat.zero_add]
  | cons t xs ih => rw [List.cons_append, widthOf_cons, ih, widthOf_cons, Nat.add_assoc]

theorem width_ofTable (t : Table) : (ScopeTable.ofTable t).width = t.columns.length := by
  simp only [ScopeTable.width, ScopeTable.ofTable, ScopeTable.named, Table.columnNames,
    List.length_map]

theorem map_name_ofTable (ts : List Table) :
    (ts.map ScopeTable.ofTable).map (·.name) = ts.map fun t => Name.canonical t.name :=
  List.map_map

theorem indexes_append (c : String) (xs ys : List ScopeTable) (n : Nat) :
    indexes c (xs ++ ys) n = indexes c xs n ++ indexes c ys (n + widthOf xs) := by
  induction xs generalizing n with
  | nil => rfl
  | cons t xs ih =>
    rw [List.cons_append, indexes, ih, indexes, List.append_assoc, widthOf_cons, Nat.add_assoc]

/-- The column of a table found by its name is one of those found in all tables. -/
theorem mem_indexes {c : String} {t : ScopeTable} {j : Nat} (front back : List ScopeTable)
    (hj : t.columns.idxOf? c = some j) :
    widthOf front + j ∈ indexes c (front ++ t :: back) 0 := by
  rw [indexes_append, indexes, hj]
  simp

theorem length_indexes (c : String) (ts : List ScopeTable) (n : Nat) :
    (indexes c ts n).length = ts.countP fun t => decide (c ∈ t.columns) := by
  induction ts generalizing n with
  | nil => rfl
  | cons t ts ih =>
    rw [indexes, List.length_append, ih, List.countP_cons, Nat.add_comm]
    cases hj : t.columns.idxOf? c with
    | none => simp [List.idxOf?_eq_none_iff.mp hj]
    | some j =>
      obtain ⟨hlt, hcolumn, -⟩ := List.idxOf?_eq_some_iff.mp hj
      simp [List.mem_of_getElem hcolumn]

/-- A column that no other table has is the only one of its name among fewer tables too. -/
theorem indexes_eq_singleton {c : String} {before after ts : List ScopeTable} {t : ScopeTable}
    {n i j : Nat} (hsub : (before ++ t :: after).Sublist ts) (hone : indexes c ts n = [i])
    (hj : t.columns.idxOf? c = some j) :
    indexes c (before ++ t :: after) 0 = [widthOf before + j] := by
  have hmem := mem_indexes before after hj
  have hle : (indexes c (before ++ t :: after) 0).length ≤ 1 := by
    have hts := length_indexes c ts n
    rw [hone, List.length_singleton] at hts
    rw [length_indexes, hts]
    exact hsub.countP_le
  obtain ⟨k, hk⟩ := List.length_eq_one_iff.mp (Nat.le_antisymm hle (List.length_pos_of_mem hmem))
  rw [hk, List.mem_singleton] at hmem
  rw [hk, hmem]

theorem exists_of_mem_indexes {c : String} {ts : List ScopeTable} {n i : Nat}
    (h : i ∈ indexes c ts n) : ∃ front t back j, ts = front ++ t :: back ∧
      t.columns.idxOf? c = some j ∧ i = n + widthOf front + j := by
  induction ts generalizing n with
  | nil => cases h
  | cons t ts ih =>
    rw [indexes, List.mem_append] at h
    rcases h with h | h
    · cases hj : t.columns.idxOf? c with
      | none => simp [hj] at h
      | some j =>
        simp only [hj, Option.map_some, Option.toList_some, List.mem_singleton] at h
        exact ⟨[], t, ts, j, rfl, hj, h⟩
    · obtain ⟨front, u, back, j, rfl, hj, rfl⟩ := ih h
      exact ⟨t :: front, u, back, j, rfl, hj, by simp only [widthOf_cons, Nat.add_assoc]⟩

theorem exists_of_qualifiedIndex {name c : String} {ts : List ScopeTable} {n i : Nat}
    (h : qualifiedIndex? name c ts n = some i) : ∃ front t back j, ts = front ++ t :: back ∧
      t.name = name ∧ t.columns.idxOf? c = some j ∧ i = n + widthOf front + j := by
  induction ts generalizing n with
  | nil => cases h
  | cons t ts ih =>
    rw [qualifiedIndex?] at h
    split at h
    · rename_i hn
      obtain ⟨j, hj, rfl⟩ := Option.map_eq_some_iff.mp h
      exact ⟨[], t, ts, j, rfl, hn, hj, rfl⟩
    · obtain ⟨front, u, back, j, rfl, hn, hj, rfl⟩ := ih h
      exact ⟨t :: front, u, back, j, rfl, hn, hj, by simp only [widthOf_cons, Nat.add_assoc]⟩

/-- A table is found by its name if no table before it has that name. -/
theorem qualifiedIndex_append {t : ScopeTable} {front : List ScopeTable} (c : String)
    (back : List ScopeTable) (n : Nat) (h : t.name ∉ front.map (·.name)) :
    qualifiedIndex? t.name c (front ++ t :: back) n =
      (t.columns.idxOf? c).map (n + widthOf front + ·) := by
  induction front generalizing n with
  | nil => simp [qualifiedIndex?]
  | cons u front ih =>
    rw [List.map_cons, List.mem_cons, not_or] at h
    rw [List.cons_append, qualifiedIndex?, if_neg (Ne.symm h.1), ih _ h.2]
    simp only [widthOf_cons, Nat.add_assoc]

theorem owner_append {t : ScopeTable} {j : Nat} {c : String} (front back : List ScopeTable)
    (hj : t.columns[j]? = some c) :
    owner? (front ++ t :: back) (widthOf front + j) =
      some { table := some t.name, column := c } := by
  induction front with
  | nil => simp [owner?, hj]
  | cons u front ih =>
    have hu : u.columns[u.width + (widthOf front + j)]? = none :=
      List.getElem?_eq_none (Nat.le_add_right _ _)
    rw [List.cons_append, owner?, widthOf_cons, Nat.add_assoc, hu]
    simpa using ih

/-! ### References in full -/

/-- Tables under canonical names, with canonical columns. -/
structure Regular (ts : List ScopeTable) : Prop where
  name : ∀ t ∈ ts, Name.canonical t.name = t.name
  column : ∀ t ∈ ts, ∀ c ∈ t.columns, Name.canonical c = c
  nodup : (ts.map (·.name)).Nodup

/-- That a reference names a table of the list and its column at an index of the joined rows. -/
def Located (ts : List ScopeTable) (q : ColumnRef) (i : Nat) : Prop :=
  ∃ front t back j, ts = front ++ t :: back ∧ q.table = some t.name ∧
    t.columns.idxOf? q.column = some j ∧ i = widthOf front + j ∧
    (t.name = "" → indexes q.column ts 0 = [i])

variable {ts ws : List ScopeTable} {c q : ColumnRef} {i : Nat}

theorem Regular.sublist (h : Regular ts) (hsub : ws.Sublist ts) : Regular ws where
  name t ht := h.name t (hsub.subset ht)
  column t ht := h.column t (hsub.subset ht)
  nodup := h.nodup.sublist (hsub.map _)

theorem Regular.segment {xs ys : List ScopeTable} (h : Regular (xs ++ ws ++ ys)) : Regular ws :=
  h.sublist ((List.sublist_append_right xs ws).trans (List.sublist_append_left _ ys))

/-- Tables whose canonical names differ are regular once their names are made canonical. -/
theorem regular_named {tables : List (String × List String)}
    (h : (tables.map fun t => Name.canonical t.1).Nodup) :
    Regular (tables.map fun t => ScopeTable.named t.1 t.2) where
  name := by
    intro t ht
    obtain ⟨u, -, rfl⟩ := List.mem_map.mp ht
    exact Name.canonical_canonical u.1
  column := by
    intro t ht c hc
    obtain ⟨u, -, rfl⟩ := List.mem_map.mp ht
    obtain ⟨d, -, rfl⟩ := List.mem_map.mp hc
    exact Name.canonical_canonical d
  nodup := by
    rw [List.map_map]
    exact h

/-- What a reference that can be resolved means: a column of a table by its name, or else the only
column of its name. -/
theorem exists_of_resolve_joined (h : (joined ts).resolve c = .ok i) :
    ∃ front t back j, ts = front ++ t :: back ∧
      t.columns.idxOf? (Name.canonical c.column) = some j ∧ i = widthOf front + j ∧
      ((∃ name, c.qualifier? = some name ∧ Name.canonical name = t.name) ∨
        indexes (Name.canonical c.column) ts 0 = [i]) := by
  simp only [resolve] at h
  cases hq : c.qualifier? with
  | some name =>
    simp only [hq, Option.map_some] at h
    split at h
    · rename_i k hk
      cases h
      obtain ⟨front, t, back, j, hts, hn, hj, rfl⟩ := exists_of_qualifiedIndex hk
      exact ⟨front, t, back, j, hts, hj, by rw [Nat.zero_add], .inl ⟨name, rfl, hn.symm⟩⟩
    · cases h
  | none =>
    simp only [hq, Option.map_none] at h
    split at h
    · cases h
    · rename_i k hk
      cases h
      obtain ⟨front, t, back, j, hts, hj, hi⟩ :=
        exists_of_mem_indexes (hk ▸ List.mem_singleton_self i)
      exact ⟨front, t, back, j, hts, hj, by rw [hi, Nat.zero_add], .inr hk⟩
    · cases h

/-- The table of a reference is not blank once its name has been trimmed. -/
theorem canonical_qualifier_ne {name : String} (h : c.qualifier? = some name) :
    Name.canonical name ≠ "" := by
  intro hblank
  obtain ⟨hmap, hne⟩ := Option.filter_eq_some_iff.mp h
  obtain ⟨table, -, rfl⟩ := Option.map_eq_some_iff.mp hmap
  have htrim := Name.trim_of_canonical_empty hblank
  rw [Text.trim_trim] at htrim
  rw [htrim] at hne
  exact absurd hne (by decide)

theorem located_of_qualify (h : (joined ts).qualify c = .ok q) :
    ∃ i, (joined ts).resolve c = .ok i ∧ Located ts q i := by
  obtain ⟨i, hi, h⟩ := bind_eq_ok_iff.mp h
  refine ⟨i, hi, ?_⟩
  obtain ⟨front, t, back, j, rfl, hj, rfl, hmeant⟩ := exists_of_resolve_joined hi
  obtain ⟨hlt, hcol, -⟩ := List.idxOf?_eq_some_iff.mp hj
  have howner := owner_append front back (List.getElem?_eq_some_iff.mpr ⟨hlt, hcol⟩)
  simp only [tables, howner] at h
  cases h
  refine ⟨front, t, back, j, rfl, rfl, hj, rfl, ?_⟩
  intro hblank
  rcases hmeant with ⟨name, hname, hcan⟩ | hunique
  · exact absurd (hcan.trans hblank) (canonical_qualifier_ne hname)
  · exact hunique

theorem Located.lt (h : Located ts q i) : i < widthOf ts := by
  obtain ⟨front, t, back, j, rfl, -, hj, rfl, -⟩ := h
  obtain ⟨hlt, -⟩ := List.idxOf?_eq_some_iff.mp hj
  simp only [widthOf_append, widthOf_cons, ScopeTable.width]
  omega

theorem Regular.notMem {t : ScopeTable} {front back : List ScopeTable}
    (h : Regular (front ++ t :: back)) :
    t.name ∉ front.map (·.name) ∧ t.name ∉ back.map (·.name) := by
  have hnodup := h.nodup
  rw [List.map_append, List.map_cons, List.nodup_middle, List.nodup_cons, List.mem_append,
    not_or] at hnodup
  exact hnodup.1

/-- A reference in full keeps its table when other tables go out of scope. -/
theorem Located.narrow {xs ys : List ScopeTable} (hr : Regular (xs ++ ws ++ ys))
    (h : Located (xs ++ ws ++ ys) q i) (hmem : ∃ t ∈ ws, q.table = some t.name) :
    ∃ k, i = widthOf xs + k ∧ Located ws q k := by
  obtain ⟨front, t, back, j, hts, hq, hj, rfl, hunique⟩ := h
  obtain ⟨u, hu, hqu⟩ := hmem
  obtain ⟨f, b, rfl⟩ := List.append_of_mem hu
  have hname : u.name = t.name := Option.some.inj (hqu.symm.trans hq)
  have hsplit : xs ++ (f ++ u :: b) ++ ys = (xs ++ f) ++ u :: (b ++ ys) := by
    simp only [List.append_assoc, List.cons_append]
  -- the table of the window is the table that the reference names, at the same place
  rw [hsplit] at hr hts hunique
  have hnot := hr.notMem
  rw [hname] at hnot
  obtain ⟨rfl, rfl, rfl⟩ := (List.append_cons_inj_of_notMem
    (fun ht => hnot.1 (List.mem_map_of_mem ht)) fun ht => hnot.2 (List.mem_map_of_mem ht)).mp hts
  refine ⟨widthOf f + j, by rw [widthOf_append, Nat.add_assoc], f, u, b, j, rfl, hq, hj, rfl, ?_⟩
  intro hblank
  have hsub : (f ++ u :: b).Sublist (xs ++ (f ++ u :: b) ++ ys) :=
    (List.sublist_append_right xs _).trans (List.sublist_append_left _ ys)
  exact indexes_eq_singleton (hsplit ▸ hsub) (hunique hblank) hj

theorem not_isEmpty {s : String} (h : s ≠ "") : (!s.isEmpty) = true := by
  simpa [String.isEmpty_iff] using h

theorem qualifier_of_located {t : ScopeTable} (hname : Name.canonical t.name = t.name)
    (hq : q.table = some t.name) :
    q.qualifier?.map Name.canonical = if t.name = "" then none else some t.name := by
  have htrim : Text.trim t.name = t.name := by
    rw [← hname]
    exact Name.trim_canonical t.name
  rw [ColumnRef.qualifier?, hq, Option.map_some, htrim]
  by_cases hblank : t.name = ""
  · rw [if_pos hblank, hblank]
    rfl
  · rw [if_neg hblank, Option.filter_some, if_pos (not_isEmpty hblank), Option.map_some, hname]

theorem canonical_column_of_located {t : ScopeTable} (hr : Regular ts) (ht : t ∈ ts) {j : Nat}
    (hj : t.columns.idxOf? q.column = some j) : Name.canonical q.column = q.column := by
  obtain ⟨hlt, hcol, -⟩ := List.idxOf?_eq_some_iff.mp hj
  exact hr.column t ht q.column (hcol ▸ List.getElem_mem hlt)

theorem Located.resolve_joined (hr : Regular ts) (h : Located ts q i) :
    (joined ts).resolve q = .ok i := by
  obtain ⟨front, t, back, j, rfl, hq, hj, rfl, hunique⟩ := h
  have ht : t ∈ front ++ t :: back := List.mem_append_right _ (List.mem_cons_self ..)
  simp only [resolve, canonical_column_of_located hr ht hj,
    qualifier_of_located (hr.name t ht) hq]
  by_cases hblank : t.name = ""
  · simp only [if_pos hblank, hunique hblank]
  · simp only [if_neg hblank, qualifiedIndex_append q.column back 0 hr.notMem.1, hj,
      Option.map_some, Nat.zero_add]

theorem Located.resolve_single {t : ScopeTable} (hr : Regular [t]) (h : Located [t] q i) :
    (single t).resolve q = .ok i := by
  obtain ⟨front, u, back, j, hts, hq, hj, rfl, hunique⟩ := h
  obtain ⟨rfl, rfl, rfl⟩ : front = [] ∧ u = t ∧ back = [] := by
    cases front with
    | nil => cases hts; exact ⟨rfl, rfl, rfl⟩
    | cons v front => simp at hts
  have ht : u ∈ [u] := List.mem_singleton_self u
  simp only [resolve, canonical_column_of_located hr ht hj,
    qualifier_of_located (hr.name u ht) hq]
  by_cases hblank : u.name = ""
  · simp [hblank, hj]
  · simp [hblank, hj]

/-! ### Canonical references -/

theorem qualifier_canonical (c : ColumnRef) :
    c.canonical.qualifier?.map Name.canonical = c.qualifier?.map Name.canonical := by
  unfold ColumnRef.qualifier? ColumnRef.canonical
  cases c.table with
  | none => rfl
  | some t =>
    simp only [Option.map_some, Name.trim_canonical]
    by_cases hblank : Text.trim t = ""
    · have hcan : Name.canonical t = "" := by
        rw [Name.canonical, hblank]
        rfl
      rw [hblank, hcan]
    · have hcan : Name.canonical t ≠ "" := fun h => hblank (Name.trim_of_canonical_empty h)
      have htwice : Name.canonical (Text.trim t) = Name.canonical t := by
        rw [Name.canonical, Text.trim_trim]
        rfl
      rw [Option.filter_some, Option.filter_some, if_pos (not_isEmpty hblank),
        if_pos (not_isEmpty hcan), Option.map_some, Option.map_some, Name.canonical_canonical,
        htwice]

theorem toOption_resolve_canonical (s : Scope) (c : ColumnRef) :
    (s.resolve c.canonical).toOption = (s.resolve c).toOption := by
  have hcolumn : Name.canonical c.canonical.column = Name.canonical c.column :=
    Name.canonical_canonical c.column
  simp only [resolve, qualifier_canonical, hcolumn]
  cases s with
  | single t =>
    simp only
    split
    · cases t.columns.idxOf? (Name.canonical c.column) <;> rfl
    · rfl
  | joined ts =>
    cases c.qualifier?.map Name.canonical with
    | some name =>
      simp only
      cases qualifiedIndex? name (Name.canonical c.column) ts 0 <;> rfl
    | none => rfl

theorem value_canonical (s : Scope) (row : Row) (c : ColumnRef) :
    s.value row c.canonical = s.value row c := by
  unfold value
  rw [toOption_resolve_canonical]

end FlatQuery.Scope
