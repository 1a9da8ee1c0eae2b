import FlatQuery.Proofs.Query.Qualified
import FlatQuery.Proofs.Rows.Fields

/-!
# References in full

A field of joined tables belongs to one table, at one position (`Owns.unique`).  A reference that can
be resolved has a full form, which names the table and the column of its field.  The full form means
that column whichever other tables are in scope, and in the scope of the table alone (`PointsAt`), so
that parts of a condition can be bound far from where the condition was read
(`qualified_resolves_alike`).

A bare reference that cannot be resolved names a column of no table, or of several
(`resolve_bare_eq_error_iff`).
-/

namespace FlatQuery.Scope

open Outcome Rows

/-! ### Tables as they are written -/

/-- Tables under the canonical forms of names; each is given by its name and those of its columns. -/
def named (tables : List (String × List String)) : List ScopeTable :=
  tables.map fun t => .named t.1 t.2

/-- That the field at an index of joined rows is that of a table at a position among its columns. -/
def Owns (tables : List (String × List String)) (t : String × List String) (j i : Nat) : Prop :=
  ∃ front back, tables = front ++ t :: back ∧ j < t.2.length ∧ i = widthOf (named front) + j

/-- That a reference means the column of a table at a position, in full: it names the table and the
column, and it is resolved to that column by the table alone and by any of the tables among which
the table is. -/
structure PointsAt (tables : List (String × List String)) (t : String × List String) (j : Nat)
    (q : ColumnRef) : Prop where
  table : q.table = some (Name.canonical t.1)
  column : (t.2.map Name.canonical)[j]? = some q.column
  alone : (single (.named t.1 t.2)).resolve q = .ok j
  among : ∀ before after, (before ++ t :: after).Sublist tables →
    (joined (named (before ++ t :: after))).resolve q = .ok (widthOf (named before) + j)

variable {tables : List (String × List String)} {t t' u : String × List String} {i j j' : Nat}
  {ts : List ScopeTable} {c q : ColumnRef} {e : Rows.Error}

theorem named_append_cons (front back : List (String × List String)) (t : String × List String) :
    named (front ++ t :: back) = named front ++ .named t.1 t.2 :: named back := by
  rw [named, List.map_append, List.map_cons]
  rfl

/-- The tables around a table of the scope are written around the one it is written as. -/
theorem exists_of_named_eq {front back : List ScopeTable} {t : ScopeTable}
    (h : named tables = front ++ t :: back) : ∃ front' t' back', tables = front' ++ t' :: back' ∧
      named front' = front ∧ .named t'.1 t'.2 = t := by
  obtain ⟨front', rest, rfl, hfront, hrest⟩ := List.map_eq_append_iff.mp h
  obtain ⟨t', back', rfl, ht, -⟩ := List.map_eq_cons_iff.mp hrest
  exact ⟨front', t', back', rfl, hfront, ht⟩

/-! ### The table of a field -/

/-- A field belongs to the first table, or to one of the others once the first is left out. -/
theorem owns_cons_iff : Owns (u :: tables) t j i ↔
    (t = u ∧ j = i ∧ i < u.2.length) ∨
      (u.2.length ≤ i ∧ Owns tables t j (i - u.2.length)) := by
  have hwidth : (ScopeTable.named u.1 u.2).width = u.2.length := List.length_map ..
  constructor
  · rintro ⟨front, back, htables, hj, rfl⟩
    cases front with
    | nil =>
      obtain ⟨rfl, -⟩ := List.cons.inj htables
      left
      exact ⟨rfl, (Nat.zero_add j).symm, (Nat.zero_add j).symm ▸ hj⟩
    | cons v front =>
      obtain ⟨rfl, rfl⟩ := List.cons.inj htables
      right
      rw [named, List.map_cons, widthOf_cons, hwidth, ← named]
      exact ⟨by omega, front, back, rfl, hj, by omega⟩
  · rintro (⟨rfl, rfl, hj⟩ | ⟨hle, front, back, rfl, hj, hi⟩)
    · exact ⟨[], tables, rfl, hj, (Nat.zero_add j).symm⟩
    · refine ⟨u :: front, back, rfl, hj, ?_⟩
      rw [named, List.map_cons, widthOf_cons, hwidth, ← named]
      omega

theorem Owns.unique (h : Owns tables t j i) (h' : Owns tables t' j' i) : t' = t ∧ j' = j := by
  induction tables generalizing i with
  | nil =>
    obtain ⟨front, back, htables, -⟩ := h
    simp at htables
  | cons u tables ih =>
    rcases owns_cons_iff.mp h with ⟨rfl, rfl, hlt⟩ | ⟨hle, h⟩
    · rcases owns_cons_iff.mp h' with ⟨rfl, rfl, -⟩ | ⟨hle', -⟩
      · exact ⟨rfl, rfl⟩
      · omega
    · rcases owns_cons_iff.mp h' with ⟨-, -, hlt'⟩ | ⟨-, h'⟩
      · omega
      · exact ih h h'

/-! ### The full form -/

theorem Located.qualify (hr : Regular ts) (h : Located ts q i) :
    (joined ts).qualify q = .ok q := by
  have hresolve := h.resolve_joined hr
  obtain ⟨front, t, back, j, rfl, hq, hj, rfl, -⟩ := h
  obtain ⟨hlt, hcolumn, -⟩ := List.idxOf?_eq_some_iff.mp hj
  have howner := owner_append front back (List.getElem?_eq_some_iff.mpr ⟨hlt, hcolumn⟩)
  simp only [Scope.qualify, hresolve, ok_bind, Scope.tables, howner, ← hq]

/-- A reference in full points at the table and the position of its field. -/
theorem Located.pointsAt (hnames : (tables.map fun t => Name.canonical t.1).Nodup)
    (h : Located (named tables) q i) : ∃ t j, Owns tables t j i ∧ PointsAt tables t j q := by
  have hr : Regular (named tables) := regular_named hnames
  obtain ⟨front, t, back, j, hts, hq, hj, rfl, hunique⟩ := h
  obtain ⟨front, t, back, rfl, rfl, rfl⟩ := exists_of_named_eq hts
  obtain ⟨hlt, hcolumn, -⟩ := List.idxOf?_eq_some_iff.mp hj
  have hamong : ∀ before after, (before ++ t :: after).Sublist (front ++ t :: back) →
      Regular (named (before ++ t :: after)) ∧
        Located (named (before ++ t :: after)) q (widthOf (named before) + j) := by
    intro before after hsub
    have hnamed : (named (before ++ t :: after)).Sublist (named (front ++ t :: back)) := hsub.map _
    refine ⟨hr.sublist hnamed, named before, _, named after, j, named_append_cons .., hq, hj, rfl, ?_⟩
    intro hblank
    rw [named_append_cons] at hnamed ⊢
    exact indexes_eq_singleton hnamed (hunique hblank) hj
  refine ⟨t, j, ⟨front, back, rfl, ?_, rfl⟩, hq, ?_, ?_, ?_⟩
  · exact Nat.lt_of_lt_of_eq hlt (List.length_map ..)
  · exact List.getElem?_eq_some_iff.mpr ⟨hlt, hcolumn⟩
  · have hsub : ([] ++ t :: []).Sublist (front ++ t :: back) :=
      List.singleton_sublist.mpr (List.mem_append_right _ (List.mem_cons_self ..))
    obtain ⟨hr', h⟩ := hamong [] [] hsub
    have hstart : widthOf (named []) + j = j := Nat.zero_add j
    rw [hstart] at h
    exact h.resolve_single hr'
  · intro before after hsub
    obtain ⟨hr', h⟩ := hamong before after hsub
    exact h.resolve_joined hr'

/-! ### Bare references -/

/-- A bare reference cannot be resolved if several tables have its column, or none has. -/
theorem resolve_bare_eq_error_iff (hbare : c.qualifier? = none) :
    (joined ts).resolve c = .error e ↔
      (2 ≤ ts.countP (fun t => decide (Name.canonical c.column ∈ t.columns)) ∧
          e = .ambiguousColumn (Name.canonical c.column)) ∨
        (ts.countP (fun t => decide (Name.canonical c.column ∈ t.columns)) = 0 ∧
          e = .unknownColumn (Name.canonical c.column)) := by
  rw [← length_indexes _ ts 0]
  simp only [resolve, hbare, Option.map_none]
  cases indexes (Name.canonical c.column) ts 0 with
  | nil => simp [eq_comm]
  | cons k rest =>
    cases rest with
    | nil => simp
    | cons l rest => simp [eq_comm]

/-- **References and their full forms.**  Let the tables have different names, once these are made
canonical.  The field that a reference is resolved to belongs to one table, at one position.  The
reference then has a full form, which is its own full form: it names the table and the column, and
every choice of the tables that keeps this one resolves it to the same column, and so does the table
alone.  A bare reference cannot be resolved exactly if its column is in several tables, and then it
is ambiguous, or in none, and then it is unknown. -/
theorem qualified_resolves_alike (hnames : (tables.map fun t => Name.canonical t.1).Nodup)
    (c : ColumnRef) :
    (∀ i, (joined (named tables)).resolve c = .ok i → i < (joined (named tables)).width ∧
      ∃ t j q, Owns tables t j i ∧ (∀ t' j', Owns tables t' j' i → t' = t ∧ j' = j) ∧
        (joined (named tables)).qualify c = .ok q ∧ (joined (named tables)).qualify q = .ok q ∧
        PointsAt tables t j q) ∧
    (c.qualifier? = none → ∀ e, (joined (named tables)).resolve c = .error e ↔
      (2 ≤ tables.countP (fun t => decide (Name.canonical c.column ∈ t.2.map Name.canonical)) ∧
          e = .ambiguousColumn (Name.canonical c.column)) ∨
        (tables.countP (fun t => decide (Name.canonical c.column ∈ t.2.map Name.canonical)) = 0 ∧
          e = .unknownColumn (Name.canonical c.column))) := by
  constructor
  · intro i hi
    obtain ⟨q, hq⟩ := exists_qualify_iff.mpr ⟨i, hi⟩
    obtain ⟨k, hk, hlocated⟩ := located_of_qualify hq
    obtain rfl : i = k := Except.ok.inj (hi.symm.trans hk)
    obtain ⟨t, j, howns, hpoints⟩ := hlocated.pointsAt hnames
    exact ⟨lt_width_of_resolve hi, t, j, q, howns, fun t' j' => howns.unique, hq,
      hlocated.qualify (regular_named hnames), hpoints⟩
  · intro hbare e
    rw [resolve_bare_eq_error_iff hbare, named, List.countP_map]
    rfl

/-- Tables with a blank name, a repeated column, and columns of one name. -/
def writtenTables : List (String × List String) :=
  [("Pupils", ["Id", "Age", "ID "]), (" ", ["Mark"]), ("Marks", ["Id", "Grade"])]

/-- A column of the table without a name, with a blank table before it. -/
def blankTableRef : ColumnRef :=
  { table := some "  ", column := "MARK" }

/-- The only column of the table without a name is found by the tables after it too. -/
theorem qualified_resolves_alike_sample :
    ((writtenTables.map fun t => Name.canonical t.1).Nodup ∧
      (joined (named writtenTables)).resolve blankTableRef = .ok 3) ∧
    ∃ t j q, Owns writtenTables t j 3 ∧
      (joined (named writtenTables)).qualify blankTableRef = .ok q ∧
      (joined (named writtenTables)).qualify q = .ok q ∧ PointsAt writtenTables t j q := by
  have hnames : (writtenTables.map fun t => Name.canonical t.1).Nodup := by decide
  have hresolve : (joined (named writtenTables)).resolve blankTableRef = .ok 3 := rfl
  obtain ⟨-, t, j, q, howns, -, hq, hagain, hpoints⟩ :=
    (qualified_resolves_alike hnames blankTableRef).1 3 hresolve
  exact ⟨⟨hnames, hresolve⟩, t, j, q, howns, hq, hagain, hpoints⟩

end FlatQuery.Scope
