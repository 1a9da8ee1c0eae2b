import FlatQuery.Name
import FlatQuery.Files.Path
import FlatQuery.Text.Pieces

/-!
Tables: their columns and the data file that holds their rows.
-/

namespace FlatQuery

/-- The declared type of a column.  Fields are text whatever the type says. -/
inductive ColumnType where
  | integer
  | text
  deriving DecidableEq, Repr, Inhabited

def ColumnType.sqlName : ColumnType → String
  | integer => "INTEGER"
  | text => "TEXT"

structure Column where
  name : String
  type : ColumnType := .text
  nullable : Bool := true
  deriving DecidableEq, Repr, Inhabited

namespace Column

def named (name : String) (type : ColumnType := .text) (nullable : Bool := true) : Column :=
  { name := Name.canonical name, type, nullable }

def text (c : Column) : String :=
  c.name ++ " " ++ c.type.sqlName ++ (if c.nullable then "" else " NOT NULL")

end Column

/-- A table: its number, its canonical name, its columns and its data file. -/
structure Table where
  id : Nat
  name : String
  columns : List Column
  dataFile : Path
  deriving DecidableEq, Repr, Inhabited

namespace Table

def named (id : Nat) (name : String) (columns : List Column) (dataFile : Path) : Table :=
  { id, name := Name.canonical name, columns, dataFile }

def columnNames (t : Table) : List String :=
  t.columns.map (·.name)

def text (t : Table) : String :=
  t.name ++ "(" ++ Text.joined ", " (t.columns.map (·.text)) ++ ")"

end Table

end FlatQuery
