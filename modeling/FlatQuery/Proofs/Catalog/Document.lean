import FlatQuery.Catalog.Document
import FlatQuery.Proofs.Catalog.Stored
import FlatQuery.Proofs.Json.ReadBack

/-!
# Documents read back

The document of a snapshot reads back as the snapshot exactly if its numbers fit and its moment is one,
so documents are a lawful format (`Snapshot.json_lawful`).
-/

namespace FlatQuery.Snapshot

theorem type?_typeWord (type : ColumnType) : type? (.string (typeWord type)) = some type := by
  cases type with
  | integer => rfl
  | text => rfl

theorem id?_eq_some_iff {n m : Nat} : id? (.integer n) = some m ↔ n < UInt64.size ∧ m = n := by
  by_cases hn : n < UInt64.size
  · have hfits : (decide (0 ≤ (n : Int)) && decide ((n : Int) < 18446744073709551616)) = true := by
      rw [Bool.and_eq_true, decide_eq_true_iff, decide_eq_true_iff]
      rw [UInt64.size] at hn
      omega
    rw [id?, if_pos hfits, Option.some.injEq, Int.toNat_natCast]
    exact ⟨fun h => ⟨hn, h.symm⟩, fun h => h.2.symm⟩
  · have hfits : ¬ (decide (0 ≤ (n : Int)) && decide ((n : Int) < 18446744073709551616)) = true := by
      rw [Bool.and_eq_true, decide_eq_true_iff, decide_eq_true_iff]
      rw [UInt64.size] at hn
      omega
    rw [id?, if_neg hfits]
    exact ⟨fun h => (nomatch h), fun h => absurd h.1 hn⟩

theorem column?_columnJson (c : Column) : column? (columnJson c) = some c := by
  have hvalues : values? ["name", "data_type", "nullable"] (columnJson c) =
      some [.string c.name, .string (typeWord c.type), .bool c.nullable] := by
    simp [values?, columnJson, field?]
  simp only [column?, hvalues, Option.bind_eq_bind, Option.bind_some, string?, type?_typeWord]

theorem mapM_column?_columnJson (columns : List Column) :
    (columns.map columnJson).mapM column? = some columns := by
  induction columns with
  | nil => rfl
  | cons c rest ih =>
    rw [List.map_cons, List.mapM_cons, column?_columnJson, ih]
    rfl

theorem table?_of_values {v id : Json} {name file : String} {items : List Json}
    {columns : List Column}
    (hvalues : values? ["id", "name", "columns", "data_file"] v =
      some [id, .string name, .array items, .string file])
    (hcolumns : items.mapM column? = some columns) :
    table? v = (id? id).map fun id => { id, name, columns, dataFile := ⟨file⟩ } := by
  simp only [table?, hvalues, Option.bind_eq_bind, Option.bind_some, string?, items?, hcolumns]
  cases id? id with
  | none => rfl
  | some n => rfl

theorem table?_tableJson_eq_some_iff {t u : Table} :
    table? (tableJson t) = some u ↔ t.id < UInt64.size ∧ u = t := by
  have hvalues : values? ["id", "name", "columns", "data_file"] (tableJson t) =
      some [.integer t.id, .string t.name, .array (t.columns.map columnJson),
        .string t.dataFile.text] := by
    simp [values?, tableJson, field?]
  rw [table?_of_values hvalues (mapM_column?_columnJson t.columns), Option.map_eq_some_iff]
  simp only [id?_eq_some_iff]
  constructor
  · rintro ⟨id, ⟨hid, rfl⟩, rfl⟩
    exact ⟨hid, rfl⟩
  · rintro ⟨hid, rfl⟩
    exact ⟨u.id, ⟨hid, rfl⟩, rfl⟩

theorem mapM_table?_eq_some_iff {tables : List Table} : ∀ {tables' : List Table},
    (tables.map tableJson).mapM table? = some tables' ↔
      (∀ t ∈ tables, t.id < UInt64.size) ∧ tables' = tables := by
  induction tables with
  | nil =>
    intro tables'
    simp [eq_comm]
  | cons t rest ih =>
    intro tables'
    simp only [List.map_cons, List.mapM_cons, Option.bind_eq_bind, Option.bind_eq_some_iff,
      table?_tableJson_eq_some_iff, ih, List.forall_mem_cons, Option.pure_def, Option.some.injEq]
    constructor
    · rintro ⟨u, ⟨ht, rfl⟩, rest', ⟨hrest, rfl⟩, rfl⟩
      exact ⟨⟨ht, hrest⟩, rfl⟩
    · rintro ⟨⟨ht, hrest⟩, rfl⟩
      exact ⟨t, ⟨ht, rfl⟩, rest, ⟨hrest, rfl⟩, rfl⟩

theorem ofJson?_toJson_eq_some_iff {s s' : Snapshot} :
    ofJson? s.toJson = some s' ↔ s.Readable ∧ s' = s := by
  have hvalues : values? ["last_table_id", "saved_at", "tables"] s.toJson =
      some [.integer s.lastId, .string s.savedAt, .array (s.tables.map tableJson)] := by
    simp [values?, toJson, field?]
  simp only [ofJson?, hvalues, Option.bind_eq_bind, Option.bind_some, string?, items?]
  by_cases hmoment : Text.Moment.isMoment s.savedAt = true
  · rw [if_pos hmoment]
    simp only [Option.bind_eq_some_iff, id?_eq_some_iff, mapM_table?_eq_some_iff,
      Option.some.injEq]
    constructor
    · rintro ⟨n, ⟨hlastId, rfl⟩, tables, ⟨hids, rfl⟩, rfl⟩
      exact ⟨⟨hmoment, hlastId, hids⟩, rfl⟩
    · rintro ⟨hs, rfl⟩
      exact ⟨s'.lastId, ⟨hs.lastId, rfl⟩, s'.tables, ⟨hs.ids, rfl⟩, rfl⟩
  · rw [if_neg hmoment]
    exact ⟨fun h => (nomatch h), fun h => absurd h.1.moment hmoment⟩

theorem arePlain_columnJson (columns : List Column) : Json.ArePlain (columns.map columnJson) := by
  induction columns with
  | nil => trivial
  | cons c rest ih => exact ⟨⟨trivial, trivial, trivial, trivial⟩, ih⟩

theorem arePlain_tableJson (tables : List Table) : Json.ArePlain (tables.map tableJson) := by
  induction tables with
  | nil => trivial
  | cons t rest ih =>
    exact ⟨⟨trivial, trivial, arePlain_columnJson t.columns, trivial, trivial⟩, ih⟩

theorem isPlain_toJson (s : Snapshot) : s.toJson.IsPlain :=
  ⟨trivial, trivial, arePlain_tableJson s.tables, trivial⟩

/-- What a written snapshot reads back as. -/
instance json_lawful : LawfulFormat where
  ofContent?_text_eq_some_iff {s s'} := by
    show ofDocument? (.text s.toJson.pretty) = some s' ↔ _
    simp only [ofDocument?, Content.text?, Option.bind_eq_bind, Option.bind_some,
      Json.parse?_pretty s.isPlain_toJson, ofJson?_toJson_eq_some_iff]

end FlatQuery.Snapshot
