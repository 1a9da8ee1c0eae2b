import FlatQuery.Proofs.Rows.Product
import FlatQuery.Proofs.Rows.Resolve
import Mathlib.Data.List.Perm.Basic

/-!
# Joined tables in any order

If the names of joined tables differ, a reference can be resolved exactly if one table only can be
meant by it (`resolve_joined_eq_ok_iff`).  So what it means in a joined row depends on the rows that
have been put together and not on their order (`value_glued`, `valueOf_perm`), and the products of
tables in two orders are read alike (`map_value_product_perm`).
-/

namespace FlatQuery

namespace Scope

/-! ### The table that is meant -/

/-- Whether a table can be meant by a reference: it has the column, and the name if there is one. -/
def heldBy (c : ColumnRef) (t : ScopeTable) : Bool :=
  (c.qualifier?.map Name.canonical).all (· = t.name) &&
    (t.columns.idxOf? (Name.canonical c.column)).isSome

theorem heldBy_of_qualifier {c : ColumnRef} {name : String}
    (h : c.qualifier?.map Name.canonical = some name) (t : ScopeTable) :
    heldBy c t = true ↔ name = t.name ∧ (t.columns.idxOf? (Name.canonical c.column)).isSome := by
  simp [heldBy, h]

theorem heldBy_of_unqualified {c : ColumnRef} (h : c.qualifier?.map Name.canonical = none)
    (t : ScopeTable) :
    heldBy c t = true ↔ (t.columns.idxOf? (Name.canonical c.column)).isSome := by
  simp [heldBy, h]

theorem indexes_eq_nil_iff {column : String} {ts : List ScopeTable} {n : Nat} :
    indexes column ts n = [] ↔ ∀ t ∈ ts, ¬ (t.columns.idxOf? column).isSome := by
  induction ts generalizing n with
  | nil => simp [indexes]
  | cons t ts ih =>
    rw [indexes, List.append_eq_nil_iff, ih, List.forall_mem_cons]
    refine and_congr_left fun _ => ?_
    cases t.columns.idxOf? column with
    | none => simp
    | some j => simp

variable {ts : List ScopeTable} {c : ColumnRef} {i : Nat}

/-- A reference means a field of joined tables exactly if it is that of the only table that can be
meant. -/
theorem resolve_joined_eq_ok_iff (hnames : (ts.map (·.name)).Nodup) :
    (joined ts).resolve c = .ok i ↔ ∃ front t back j, ts = front ++ t :: back ∧
      (∀ u ∈ front, ¬ heldBy c u = true) ∧ heldBy c t = true ∧ (∀ u ∈ back, ¬ heldBy c u = true) ∧
        t.columns.idxOf? (Name.canonical c.column) = some j ∧ i = widthOf front + j := by
  cases hq : c.qualifier?.map Name.canonical with
  | some name =>
    have hresolve : (joined ts).resolve c = .ok i ↔
        qualifiedIndex? name (Name.canonical c.column) ts 0 = some i := by
      simp only [resolve, hq]
      cases qualifiedIndex? name (Name.canonical c.column) ts 0 <;> simp
    rw [hresolve]
    constructor
    · intro h
      obtain ⟨front, t, back, j, rfl, rfl, hj, hi⟩ := exists_of_qualifiedIndex h
      rw [List.map_append, List.map_cons, List.nodup_middle, List.nodup_cons, List.mem_append,
        not_or] at hnames
      -- the first table of that name is the only one, as names differ
      have hother : ∀ us : List ScopeTable, t.name ∉ us.map (·.name) →
          ∀ u ∈ us, ¬ heldBy c u = true := by
        intro us hnot u hu hheld
        rw [heldBy_of_qualifier hq] at hheld
        exact hnot (hheld.1 ▸ List.mem_map_of_mem hu)
      refine ⟨front, t, back, j, rfl, hother front hnames.1.1, ?_, hother back hnames.1.2, hj, ?_⟩
      · exact (heldBy_of_qualifier hq t).mpr ⟨rfl, by rw [hj]; rfl⟩
      · rw [hi, Nat.zero_add]
    · rintro ⟨front, t, back, j, rfl, -, ht, -, hj, rfl⟩
      obtain ⟨rfl, -⟩ := (heldBy_of_qualifier hq t).mp ht
      rw [List.map_append, List.map_cons, List.nodup_middle, List.nodup_cons, List.mem_append,
        not_or] at hnames
      rw [qualifiedIndex_append _ back 0 hnames.1.1, hj, Nat.zero_add]
      rfl
  | none =>
    have hresolve : (joined ts).resolve c = .ok i ↔
        indexes (Name.canonical c.column) ts 0 = [i] := by
      simp only [resolve, hq]
      rcases indexes (Name.canonical c.column) ts 0 with _ | ⟨k, _ | ⟨l, rest⟩⟩ <;> simp
    simp only [hresolve, heldBy_of_unqualified hq]
    have hsplit : ∀ (front : List ScopeTable) (t : ScopeTable) (back : List ScopeTable) (j : Nat),
        t.columns.idxOf? (Name.canonical c.column) = some j →
          indexes (Name.canonical c.column) (front ++ t :: back) 0 =
            indexes (Name.canonical c.column) front 0 ++ (widthOf front + j) ::
              indexes (Name.canonical c.column) back (widthOf front + t.width) := by
      intro front t back j hj
      rw [indexes_append, indexes, hj, Nat.zero_add]
      rfl
    constructor
    · intro h
      obtain ⟨front, t, back, j, rfl, hj, hi⟩ :=
        exists_of_mem_indexes (h ▸ List.mem_singleton_self i)
      rw [hsplit front t back j hj] at h
      -- one index in all, so the tables before and after have none
      have hlength := congrArg List.length h
      simp only [List.length_append, List.length_cons, List.length_nil] at hlength
      have hfront : indexes (Name.canonical c.column) front 0 = [] :=
        List.length_eq_zero_iff.mp (by omega)
      have hback : indexes (Name.canonical c.column) back (widthOf front + t.width) = [] :=
        List.length_eq_zero_iff.mp (by omega)
      exact ⟨front, t, back, j, rfl, indexes_eq_nil_iff.mp hfront, by rw [hj]; rfl,
        indexes_eq_nil_iff.mp hback, hj, by rw [hi, Nat.zero_add]⟩
    · rintro ⟨front, t, back, j, rfl, hfront, -, hback, hj, rfl⟩
      rw [hsplit front t back j hj, indexes_eq_nil_iff.mpr hfront, indexes_eq_nil_iff.mpr hback]
      rfl

theorem exists_resolve_joined_iff (hnames : (ts.map (·.name)).Nodup) :
    (∃ i, (joined ts).resolve c = .ok i) ↔ ∃ t, ts.filter (heldBy c) = [t] := by
  simp only [resolve_joined_eq_ok_iff hnames, List.filter_eq_cons_iff, List.filter_eq_nil_iff]
  constructor
  · rintro ⟨-, front, t, back, -, hts, hfront, ht, hback, -⟩
    exact ⟨t, front, back, hts, hfront, ht, hback⟩
  · rintro ⟨t, front, back, hts, hfront, ht, hback⟩
    obtain ⟨j, hj⟩ := Option.isSome_iff_exists.mp (Bool.and_eq_true_iff.mp ht).2
    exact ⟨_, front, t, back, j, hts, hfront, ht, hback, hj, rfl⟩

/-- The order of the tables does not matter for whether a reference can be resolved. -/
theorem exists_resolve_perm {us : List ScopeTable} (hnames : (ts.map (·.name)).Nodup)
    (h : ts.Perm us) (hc : ∃ i, (joined ts).resolve c = .ok i) :
    ∃ i, (joined us).resolve c = .ok i := by
  have hnames' : (us.map (·.name)).Nodup := (h.map _).nodup_iff.mp hnames
  obtain ⟨t, ht⟩ := (exists_resolve_joined_iff hnames).mp hc
  refine (exists_resolve_joined_iff hnames').mpr ⟨t, ?_⟩
  exact List.perm_singleton.mp (ht ▸ (h.filter _).symm)

/-! ### Rows put together -/

/-- The row made of rows side by side, each with the table that it is of. -/
def glued (pieces : List (ScopeTable × Row)) : Row :=
  ⟨pieces.flatMap (·.2.fields)⟩

/-- What a reference means in rows that have been put together. -/
def valueOf (pieces : List (ScopeTable × Row)) (c : ColumnRef) : Option String :=
  match pieces.filter fun p => heldBy c p.1 with
  | [p] => (p.1.columns.idxOf? (Name.canonical c.column)).bind (p.2.fields[·]?)
  | _ => none

theorem valueOf_perm {ps qs : List (ScopeTable × Row)} (h : ps.Perm qs) :
    valueOf ps = valueOf qs := by
  funext c
  have hfilter := h.filter fun p => heldBy c p.1
  unfold valueOf
  generalize ps.filter (fun p => heldBy c p.1) = held at hfilter ⊢
  generalize qs.filter (fun p => heldBy c p.1) = held' at hfilter ⊢
  rcases held with _ | ⟨p, _ | ⟨p', rest⟩⟩
  · rw [← hfilter.nil_eq]
  · rw [List.perm_singleton.mp hfilter.symm]
  · rcases held' with _ | ⟨q, _ | ⟨q', rest'⟩⟩
    · rfl
    · cases hfilter.length_eq
    · rfl

theorem length_glued {ps : List (ScopeTable × Row)} (h : ∀ p ∈ ps, p.2.width = p.1.width) :
    (ps.flatMap (·.2.fields)).length = widthOf (ps.map (·.1)) := by
  induction ps with
  | nil => rfl
  | cons p ps ih =>
    obtain ⟨hp, hps⟩ := List.forall_mem_cons.mp h
    rw [List.flatMap_cons, List.length_append, ih hps, List.map_cons, widthOf_cons, ← hp]
    rfl

theorem value_glued {ps : List (ScopeTable × Row)} (hnames : ((ps.map (·.1)).map (·.name)).Nodup)
    (hwidth : ∀ p ∈ ps, p.2.width = p.1.width) :
    (joined (ps.map (·.1))).value (glued ps) = valueOf ps := by
  funext c
  unfold value valueOf
  cases hi : (joined (ps.map (·.1))).resolve c with
  | ok i =>
    obtain ⟨front, t, back, j, hts, hfront, ht, hback, hj, rfl⟩ :=
      (resolve_joined_eq_ok_iff hnames).mp hi
    obtain ⟨qs, rest, rfl, rfl, hrest⟩ := List.map_eq_append_iff.mp hts
    obtain ⟨p, rs, rfl, rfl, rfl⟩ := List.map_eq_cons_iff.mp hrest
    have hfilter : (qs ++ p :: rs).filter (fun p => heldBy c p.1) = [p] := by
      refine List.filter_eq_cons_iff.mpr ⟨qs, rs, rfl, ?_, ht, List.filter_eq_nil_iff.mpr ?_⟩
      · exact fun q hq => hfront q.1 (List.mem_map_of_mem hq)
      · exact fun q hq => hback q.1 (List.mem_map_of_mem hq)
    rw [hfilter]
    obtain ⟨hqs, hp, -⟩ : (∀ q ∈ qs, q.2.width = q.1.width) ∧ p.2.width = p.1.width ∧
        ∀ r ∈ rs, r.2.width = r.1.width := by
      rwa [List.forall_mem_append, List.forall_mem_cons] at hwidth
    obtain ⟨hlt, -⟩ := List.idxOf?_eq_some_iff.mp hj
    have hlt' : j < p.2.fields.length := Nat.lt_of_lt_of_eq hlt hp.symm
    -- the fields of a glued row are those of its pieces, each behind the widths before it
    have hfield : (glued (qs ++ p :: rs)).fields[widthOf (qs.map (·.1)) + j]? = p.2.fields[j]? := by
      rw [glued, List.flatMap_append, List.flatMap_cons, ← length_glued hqs,
        List.getElem?_append_right (Nat.le_add_right _ _), Nat.add_sub_cancel_left,
        List.getElem?_append_left hlt']
    simp only [Outcome.toOption_ok, Option.bind_some, hj, hfield]
  | error e =>
    have hnot : ¬ ∃ t, (ps.map (·.1)).filter (heldBy c) = [t] := by
      rw [← exists_resolve_joined_iff hnames, hi]
      rintro ⟨i, h⟩
      cases h
    rw [List.filter_map] at hnot
    -- no table or several can be meant, and neither gives a value
    rcases hps : ps.filter fun p => heldBy c p.1 with _ | ⟨p, _ | ⟨p', rest⟩⟩
    · rw [hps]
      rfl
    · exact absurd ⟨p.1, congrArg (List.map (·.1)) hps⟩ hnot
    · rw [hps]
      rfl

end Scope

namespace Rows

open Scope

/-! ### Products -/

/-- The ways to take a row of each table, in the order of the tables. -/
def choices (rows : Table → List Row) : List Table → List (List (ScopeTable × Row))
  | [] => [[]]
  | t :: ts => (rows t).flatMap fun r => (choices rows ts).map ((.ofTable t, r) :: ·)

variable {rows : Table → List Row} {ts us : List Table}

theorem product_eq_map_glued (rows : Table → List Row) (ts : List Table) :
    product (ts.map rows) = (choices rows ts).map glued := by
  induction ts with
  | nil => rfl
  | cons t ts ih =>
    rw [List.map_cons, product, ih, choices, List.map_flatMap]
    refine congrArg (List.flatMap · (rows t)) (funext fun r => ?_)
    rw [List.map_map, List.map_map]
    rfl

theorem of_mem_choices {ps : List (ScopeTable × Row)} (h : ps ∈ choices rows ts) :
    ps.map (·.1) = ts.map .ofTable ∧
      ∀ p ∈ ps, ∃ t ∈ ts, p.1 = .ofTable t ∧ p.2 ∈ rows t := by
  induction ts generalizing ps with
  | nil =>
    obtain rfl := List.mem_singleton.mp h
    exact ⟨rfl, fun p hp => nomatch hp⟩
  | cons t ts ih =>
    obtain ⟨r, hr, h⟩ := List.mem_flatMap.mp h
    obtain ⟨qs, hqs, rfl⟩ := List.mem_map.mp h
    obtain ⟨htables, hrows⟩ := ih hqs
    refine ⟨congrArg (ScopeTable.ofTable t :: ·) htables, List.forall_mem_cons.mpr ⟨?_, ?_⟩⟩
    · exact ⟨t, List.mem_cons_self .., rfl, hr⟩
    · intro p hp
      obtain ⟨u, hu, hpu⟩ := hrows p hp
      exact ⟨u, List.mem_cons_of_mem t hu, hpu⟩

theorem flatMap_swap_perm {α β γ : Type} (xs : List α) (ys : List β) (f : α → β → List γ) :
    (xs.flatMap fun a => ys.flatMap (f a)).Perm (ys.flatMap fun b => xs.flatMap (f · b)) := by
  induction xs with
  | nil => simp
  | cons a xs ih =>
    rw [List.flatMap_cons]
    exact (ih.append_left _).trans (List.flatMap_append_perm ys (f a) _)

/-- What does not depend on the order of the rows taken comes out the same, in some order, whatever
the order of the tables. -/
theorem map_choices_perm {β : Type} (h : ts.Perm us) {f : List (ScopeTable × Row) → β}
    (hf : ∀ ps qs, ps.Perm qs → f ps = f qs) :
    ((choices rows ts).map f).Perm ((choices rows us).map f) := by
  induction h generalizing f with
  | nil => exact .refl _
  | cons t _ ih =>
    simp only [choices, List.map_flatMap, List.map_map]
    refine List.Perm.flatMap_left _ fun r _ => ?_
    exact ih fun ps qs hps => hf _ _ (hps.cons _)
  | @swap t u ts =>
    simp only [choices, List.map_flatMap, List.map_map]
    refine (flatMap_swap_perm _ _ _).trans (List.Perm.flatMap_left _ fun r _ => ?_)
    refine List.Perm.flatMap_left _ fun r' _ => ?_
    refine List.Perm.of_eq (List.map_congr_left fun ps _ => ?_)
    exact hf _ _ (.swap ..)
  | trans _ _ ih ih' => exact (ih hf).trans (ih' hf)

theorem map_value_product (hnames : (ts.map fun t => Name.canonical t.name).Nodup)
    (hwidth : ∀ t ∈ ts, ∀ r ∈ rows t, r.width = t.columns.length) :
    (product (ts.map rows)).map (Scope.ofTables ts).value = (choices rows ts).map valueOf := by
  rw [product_eq_map_glued, List.map_map]
  refine List.map_congr_left fun ps hps => ?_
  obtain ⟨htables, hrows⟩ := of_mem_choices hps
  have hnames' : ((ps.map (·.1)).map (·.name)).Nodup := by
    rw [htables, map_name_ofTable]
    exact hnames
  have hwidth' : ∀ p ∈ ps, p.2.width = p.1.width := by
    intro p hp
    obtain ⟨t, ht, hpt, hr⟩ := hrows p hp
    rw [hpt, hwidth t ht p.2 hr, width_ofTable]
  have hvalue := value_glued hnames' hwidth'
  rw [htables] at hvalue
  exact hvalue

theorem map_value_product_perm (h : ts.Perm us)
    (hnames : (ts.map fun t => Name.canonical t.name).Nodup)
    (hwidth : ∀ t ∈ ts, ∀ r ∈ rows t, r.width = t.columns.length) :
    ((product (ts.map rows)).map (Scope.ofTables ts).value).Perm
      ((product (us.map rows)).map (Scope.ofTables us).value) := by
  have hnames' : (us.map fun t => Name.canonical t.name).Nodup :=
    (h.map _).nodup_iff.mp hnames
  rw [map_value_product hnames hwidth,
    map_value_product hnames' fun t ht => hwidth t (h.mem_iff.mpr ht)]
  exact map_choices_perm h fun _ _ => valueOf_perm

end Rows

end FlatQuery
