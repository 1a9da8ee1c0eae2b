import FlatQuery.Name
import FlatQuery.Text.Pieces

/-!
References to columns.
-/

namespace FlatQuery

/-- A reference to a column, with or without the table it belongs to. -/
structure ColumnRef where
  table : Option String := none
  column : String
  deriving DecidableEq, Repr, Inhabited

namespace ColumnRef

/-- The text `table.column` or `column`. -/
def text (c : ColumnRef) : String :=
  match c.table with
  | some t => t ++ "." ++ c.column
  | none => c.column

/-- The text in canonical form, which names an output field. -/
def label (c : ColumnRef) : String :=
  Name.canonical c.text

def canonical (c : ColumnRef) : ColumnRef where
  table := c.table.map Name.canonical
  column := Name.canonical c.column

/-- The reference that a text means: what stands before the first dot is the table. -/
def ofText (s : String) : ColumnRef :=
  match Text.cutAt? '.' s with
  | some (table, column) => { table := some table, column := column }
  | none => { column := s }

/-- The table of the reference, trimmed; a blank one counts as none. -/
def qualifier? (c : ColumnRef) : Option String :=
  (c.table.map Text.trim).filter (!·.isEmpty)

/-- How messages name the reference: canonical parts, a blank table left out. -/
def shown (c : ColumnRef) : String :=
  match c.qualifier? with
  | some t => Name.canonical t ++ "." ++ Name.canonical c.column
  | none => Name.canonical c.column

end ColumnRef

end FlatQuery
