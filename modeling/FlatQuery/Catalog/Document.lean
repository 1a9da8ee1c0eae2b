import FlatQuery.Catalog.Snapshot
import FlatQuery.Json.Read
import FlatQuery.Text.Moment

/-!
Snapshots as JSON documents.  Reading allows what JSON readers of records commonly allow: fields in
any order, fields that are not known, and the values of a record listed in an array.
-/

namespace FlatQuery.Snapshot

/-! ### Writing -/

def typeWord : ColumnType → String
  | .integer => "integer"
  | .text => "text"

def columnJson (c : Column) : Json :=
  .object [("name", .string c.name), ("data_type", .string (typeWord c.type)),
    ("nullable", .bool c.nullable)]

def tableJson (t : Table) : Json :=
  .object [("id", .integer t.id), ("name", .string t.name),
    ("columns", .array (t.columns.map columnJson)), ("data_file", .string t.dataFile.text)]

def toJson (s : Snapshot) : Json :=
  .object [("last_table_id", .integer s.lastId), ("saved_at", .string s.savedAt),
    ("tables", .array (s.tables.map tableJson))]

/-! ### Reading -/

/-- The value of a field that occurs exactly once. -/
def field? (fields : List (String × Json)) (name : String) : Option Json :=
  match fields.filter (·.1 == name) with
  | [(_, v)] => some v
  | _ => none

/-- The values of a record with the given fields. -/
def values? (names : List String) : Json → Option (List Json)
  | .object fields => names.mapM (field? fields)
  | .array items => if items.length = names.length then some items else none
  | _ => none

/-- A number that fits an unsigned word of 64 bits. -/
def id? : Json → Option Nat
  | .integer n => if 0 ≤ n && n < 18446744073709551616 then some n.toNat else none
  | _ => none

def string? : Json → Option String
  | .string s => some s
  | _ => none

/-- A column type: its word, or an object that gives the word no value. -/
def type? : Json → Option ColumnType
  | .string "integer" => some .integer
  | .string "text" => some .text
  | .object [("integer", .null)] => some .integer
  | .object [("text", .null)] => some .text
  | _ => none

def column? (v : Json) : Option Column := do
  match ← values? ["name", "data_type", "nullable"] v with
  | [name, type, .bool nullable] =>
    some { name := ← string? name, type := ← type? type, nullable }
  | _ => none

def items? : Json → Option (List Json)
  | .array items => some items
  | _ => none

def table? (v : Json) : Option Table := do
  match ← values? ["id", "name", "columns", "data_file"] v with
  | [id, name, columns, file] =>
    some {
      id := ← id? id
      name := ← string? name
      columns := ← (← items? columns).mapM column?
      dataFile := ⟨← string? file⟩ }
  | _ => none

def ofJson? (v : Json) : Option Snapshot := do
  match ← values? ["last_table_id", "saved_at", "tables"] v with
  | [lastId, savedAt, tables] =>
    let savedAt ← string? savedAt
    if Text.Moment.isMoment savedAt then
      some { lastId := ← id? lastId, savedAt, tables := ← (← items? tables).mapM table? }
    else none
  | _ => none

def ofDocument? (c : Content) : Option Snapshot := do
  ofJson? (← Json.parse? (← c.text?))

/-- Snapshots are stored as indented documents. -/
instance json : Format where
  isMoment := Text.Moment.isMoment
  text s := s.toJson.pretty
  ofContent? := ofDocument?

end FlatQuery.Snapshot
