import FlatQuery.Catalog.Store
import FlatQuery.Proofs.Name
import FlatQuery.Proofs.Lookup
import Mathlib.Data.List.Nodup

/-!
# Tables and index in step

A catalog is consistent (`Catalog.Consistent`) if its index gives exactly the numbers of its tables
under their names, and its tables stand by increasing number, none above the last number given out.
In a consistent catalog all ways of looking a table up agree (`Consistent.find?_eq_some_iff`,
`Consistent.has_eq_true_iff`, `Consistent.byId?_eq_some_iff`, `Consistent.list_increasing`), and what
registering and dropping do to a catalog (`grow`, `forget`) keeps it consistent.
-/

namespace FlatQuery.Catalog

/-! ### Increasing numbers -/

theorem eq_of_id_of_increasing {c : Catalog} (hc : c.tables.Pairwise (·.id < ·.id)) {t u : Table}
    (ht : t ∈ c.tables) (hu : u ∈ c.tables) (h : t.id = u.id) : t = u := by
  have hids : (c.tables.map (·.id)).Nodup := List.pairwise_map.mpr (hc.imp Nat.ne_of_lt)
  exact List.inj_on_of_nodup_map hids ht hu h

/-- If the numbers increase, the table with a number is the one that has it. -/
theorem byId?_eq_some_iff_of_increasing {c : Catalog} (hc : c.tables.Pairwise (·.id < ·.id))
    {id : Nat} {t : Table} : c.byId? id = some t ↔ t ∈ c.tables ∧ t.id = id := by
  constructor
  · intro h
    exact ⟨List.mem_of_find?_eq_some h, by simpa using List.find?_some h⟩
  · rintro ⟨ht, rfl⟩
    cases hf : c.byId? t.id with
    | none =>
      have := List.find?_eq_none.mp hf t ht
      simp at this
    | some u =>
      have hu := List.mem_of_find?_eq_some hf
      have hid : u.id = t.id := by simpa using List.find?_some hf
      rw [eq_of_id_of_increasing hc hu ht hid]

/-! ### Consistent catalogs -/

/-- The tables and the index of a catalog tell the same. -/
structure Consistent (c : Catalog) : Prop where
  /-- The tables stand by increasing number. -/
  increasing : c.tables.Pairwise (·.id < ·.id)
  /-- A name in the index is canonical, and means the number of a table of that name. -/
  indexed : ∀ name id, c.index.lookup name = some id →
    Name.canonical name = name ∧ ∃ t ∈ c.tables, t.id = id ∧ t.name = name
  /-- The name of a table means its number. -/
  listed : ∀ t ∈ c.tables, c.index.lookup t.name = some t.id
  /-- Every table has a column. -/
  columns : ∀ t ∈ c.tables, t.columns ≠ []
  /-- The numbers start at one and go up to the last one given out. -/
  numbered : ∀ t ∈ c.tables, 1 ≤ t.id ∧ t.id ≤ c.lastId

namespace Consistent

variable {c : Catalog}

theorem empty (location : Option Path) : Consistent { location } where
  increasing := .nil
  indexed := by
    intro name id h
    cases h
  listed := by simp
  columns := by simp
  numbered := by simp

theorem canonical_name (hc : c.Consistent) {t : Table} (ht : t ∈ c.tables) :
    Name.canonical t.name = t.name :=
  (hc.indexed _ _ (hc.listed t ht)).1

theorem eq_of_id (hc : c.Consistent) {t u : Table} (ht : t ∈ c.tables) (hu : u ∈ c.tables)
    (h : t.id = u.id) : t = u :=
  eq_of_id_of_increasing hc.increasing ht hu h

theorem eq_of_name (hc : c.Consistent) {t u : Table} (ht : t ∈ c.tables) (hu : u ∈ c.tables)
    (h : t.name = u.name) : t = u := by
  refine hc.eq_of_id ht hu ?_
  have hlookup := hc.listed t ht
  rw [h, hc.listed u hu] at hlookup
  exact (Option.some.inj hlookup).symm

/-! ### Looking up -/

theorem byId?_eq_some_iff (hc : c.Consistent) {id : Nat} {t : Table} :
    c.byId? id = some t ↔ t ∈ c.tables ∧ t.id = id :=
  byId?_eq_some_iff_of_increasing hc.increasing

theorem find?_eq_some_iff (hc : c.Consistent) {name : String} {t : Table} :
    c.find? name = some t ↔ t ∈ c.tables ∧ t.name = Name.canonical name := by
  simp only [find?, Option.bind_eq_some_iff, hc.byId?_eq_some_iff]
  constructor
  · rintro ⟨id, hid, ht, rfl⟩
    obtain ⟨-, u, hu, huid, huname⟩ := hc.indexed _ _ hid
    rw [← hc.eq_of_id hu ht huid]
    exact ⟨hu, huname⟩
  · rintro ⟨ht, hname⟩
    exact ⟨t.id, hname ▸ hc.listed t ht, ht, rfl⟩

theorem get_eq_ok_iff (hc : c.Consistent) {name : String} {t : Table} :
    c.get name = .ok t ↔ t ∈ c.tables ∧ t.name = Name.canonical name := by
  rw [← hc.find?_eq_some_iff, get]
  cases c.find? name with
  | none => simp
  | some u => simp

theorem has_eq_true_iff (hc : c.Consistent) {name : String} :
    c.has name = true ↔ ∃ t ∈ c.tables, t.name = Name.canonical name := by
  rw [has, Option.isSome_iff_exists]
  constructor
  · rintro ⟨id, hid⟩
    obtain ⟨-, t, ht, -, hname⟩ := hc.indexed _ _ hid
    exact ⟨t, ht, hname⟩
  · rintro ⟨t, ht, hname⟩
    exact ⟨t.id, hname ▸ hc.listed t ht⟩

theorem has_eq_isSome (hc : c.Consistent) (name : String) :
    c.has name = (c.find? name).isSome := by
  rw [Bool.eq_iff_iff, hc.has_eq_true_iff, Option.isSome_iff_exists]
  simp only [hc.find?_eq_some_iff]

theorem mem_list {t : Table} : t ∈ c.list ↔ t ∈ c.tables :=
  (List.mergeSort_perm _ _).mem_iff

theorem list_increasing (hc : c.Consistent) : c.list.Pairwise (·.name < ·.name) := by
  have hle : ∀ a b : Table, (!decide (b.name < a.name)) = true ↔ a.name ≤ b.name := by
    intro a b
    rw [Bool.not_eq_true', decide_eq_false_iff_not]
    exact String.not_lt
  have hsorted : c.list.Pairwise fun a b => a.name ≤ b.name := by
    refine (List.pairwise_mergeSort ?_ ?_ c.tables).imp fun {a b} h => (hle a b).mp h
    · intro a b d hab hbd
      exact (hle a d).mpr (String.le_trans ((hle a b).mp hab) ((hle b d).mp hbd))
    · intro a b
      rw [Bool.or_eq_true, hle, hle]
      exact String.le_total a.name b.name
  have hnames : c.list.Pairwise fun a b => a.name ≠ b.name := by
    refine (List.Perm.pairwise_iff (fun h => h.symm) (List.mergeSort_perm _ _)).mpr ?_
    refine hc.increasing.imp_of_mem fun {a b} ha hb hid hname => ?_
    rw [hc.eq_of_name ha hb hname] at hid
    exact Nat.lt_irrefl _ hid
  refine hsorted.imp₂ (fun {a b} hle hne => ?_) hnames
  by_contra hlt
  exact hne (String.le_antisymm hle (String.not_lt.mp hlt))

end Consistent

/-! ### Adding -/

theorem insertTable_of_forall_lt {t : Table} {tables : List Table} (h : ∀ u ∈ tables, u.id < t.id) :
    insertTable t tables = tables ++ [t] := by
  induction tables with
  | nil => rfl
  | cons u rest ih =>
    have hu : u.id < t.id := h u (List.mem_cons_self ..)
    have hrest := ih fun v hv => h v (List.mem_cons_of_mem u hv)
    rw [insertTable, if_neg (by omega), if_neg (by omega), hrest, List.cons_append]

theorem eq_or_mem_of_mem_insertTable {t u : Table} {tables : List Table}
    (h : u ∈ insertTable t tables) : u = t ∨ u ∈ tables := by
  induction tables with
  | nil => exact .inl (List.mem_singleton.mp h)
  | cons v rest ih =>
    rw [insertTable] at h
    split at h
    · exact List.mem_cons.mp h
    · split at h
      · rcases List.mem_cons.mp h with h | h
        · exact .inl h
        · exact .inr (List.mem_cons_of_mem v h)
      · rcases List.mem_cons.mp h with h | h
        · exact .inr (h ▸ List.mem_cons_self ..)
        · exact (ih h).imp_right (List.mem_cons_of_mem v)

@[simp] theorem lookup_setIndex_self (name : String) (id : Nat) (index : List (String × Nat)) :
    (setIndex name id index).lookup name = some id :=
  List.lookup_cons_self

theorem lookup_setIndex_of_ne {name other : String} (h : other ≠ name) (id : Nat)
    (index : List (String × Nat)) : (setIndex name id index).lookup other = index.lookup other := by
  rw [setIndex, lookup_cons_of_ne h, lookup_filter_of_ne h]

/-- The catalog with a new table, whose number is now the last one given out. -/
def grow (c : Catalog) (t : Table) : Catalog :=
  { c.add t with lastId := t.id }

@[simp] theorem location_grow (c : Catalog) (t : Table) : (c.grow t).location = c.location := rfl

/-- A table that comes after all others under a new name keeps a catalog consistent. -/
theorem Consistent.add {c : Catalog} (hc : c.Consistent) {t : Table} {n : Nat}
    (hname : Name.canonical t.name = t.name) (hnew : ∀ u ∈ c.tables, u.name ≠ t.name)
    (hlast : ∀ u ∈ c.tables, u.id < t.id) (hcolumns : t.columns ≠ []) (hid : 1 ≤ t.id)
    (hn : t.id ≤ n) : Consistent { c.add t with lastId := n } := by
  have htables : (c.add t).tables = c.tables ++ [t] := insertTable_of_forall_lt hlast
  have hindex : (c.add t).index = setIndex t.name t.id c.index := by
    rw [Catalog.add, hname]
  constructor
  case increasing =>
    simp only [htables, List.pairwise_append, List.mem_singleton, List.pairwise_singleton]
    exact ⟨hc.increasing, trivial, fun u hu v hv => hv ▸ hlast u hu⟩
  -- setting a name leaves what other names mean
  case indexed =>
    intro name id h
    simp only [hindex] at h
    by_cases hne : name = t.name
    · subst hne
      rw [lookup_setIndex_self] at h
      refine ⟨hname, t, ?_, Option.some.inj h, rfl⟩
      simp only [htables, List.mem_append, List.mem_singleton, or_true]
    · rw [lookup_setIndex_of_ne hne] at h
      obtain ⟨hcanonical, u, hu, huid, huname⟩ := hc.indexed name id h
      refine ⟨hcanonical, u, ?_, huid, huname⟩
      simp only [htables, List.mem_append, hu, true_or]
  case listed =>
    simp only [htables, hindex, List.mem_append, List.mem_singleton]
    rintro u (hu | rfl)
    · rw [lookup_setIndex_of_ne (hnew u hu)]
      exact hc.listed u hu
    · exact lookup_setIndex_self ..
  case columns =>
    simp only [htables, List.mem_append, List.mem_singleton]
    rintro u (hu | rfl)
    · exact hc.columns u hu
    · exact hcolumns
  case numbered =>
    simp only [htables, List.mem_append, List.mem_singleton]
    rintro u (hu | rfl)
    · have hlt := hlast u hu
      exact ⟨(hc.numbered u hu).1, by omega⟩
    · exact ⟨hid, hn⟩

/-! ### Forgetting -/

@[simp] theorem location_forget (c : Catalog) (name : String) (id : Nat) :
    (c.forget name id).location = c.location := rfl

theorem mem_tables_forget {c : Catalog} {name : String} {id : Nat} {t : Table} :
    t ∈ (c.forget name id).tables ↔ t ∈ c.tables ∧ t.id ≠ id := by
  simp only [forget, List.mem_filter, bne_iff_ne]

theorem Consistent.forget {c : Catalog} (hc : c.Consistent) {name : String} {id : Nat}
    (h : c.index.lookup (Name.canonical name) = some id) : (c.forget name id).Consistent := by
  obtain ⟨-, t, ht, htid, htname⟩ := hc.indexed _ _ h
  constructor
  case increasing => exact hc.increasing.filter _
  case indexed =>
    intro other other' hother
    by_cases hne : other = Name.canonical name
    · subst hne
      simp only [Catalog.forget, lookup_filter_self] at hother
      cases hother
    · simp only [Catalog.forget, lookup_filter_of_ne hne] at hother
      obtain ⟨hcanonical, u, hu, huid, huname⟩ := hc.indexed _ _ hother
      refine ⟨hcanonical, u, mem_tables_forget.mpr ⟨hu, ?_⟩, huid, huname⟩
      intro huid'
      have hut : u = t := hc.eq_of_id hu ht (huid'.trans htid.symm)
      exact hne (by rw [← huname, hut, htname])
  case listed =>
    intro u hu
    obtain ⟨hu, huid⟩ := mem_tables_forget.mp hu
    have hne : u.name ≠ Name.canonical name := by
      intro heq
      exact huid ((congrArg Table.id (hc.eq_of_name hu ht (heq.trans htname.symm))).trans htid)
    simp only [Catalog.forget, lookup_filter_of_ne hne]
    exact hc.listed u hu
  case columns => exact fun u hu => hc.columns u (mem_tables_forget.mp hu).1
  case numbered => exact fun u hu => hc.numbered u (mem_tables_forget.mp hu).1

end FlatQuery.Catalog
