import FlatQuery.Rows.Error

/-!
Rows: ordered lists of text fields.
-/

namespace FlatQuery

structure Row where
  fields : List String
  deriving DecidableEq, Repr, Inhabited

namespace Row

open Rows (Error)

/-- The row that a line writes: its pieces between separators, trimmed. -/
def ofLine (separator : Char) (line : String) : Row :=
  ⟨(Text.piecesAt separator line).map Text.trim⟩

def separator : Char := ','

def width (r : Row) : Nat :=
  r.fields.length

def text (r : Row) : String :=
  Text.joined ", " r.fields

def get (r : Row) (index : Nat) : Except Error String :=
  match r.fields[index]? with
  | some field => .ok field
  | none => .error (.indexOutOfRange index r.width)

/-- The fields of one row and then those of another. -/
def append (r s : Row) : Row :=
  ⟨r.fields ++ s.fields⟩

/-- The fields at the indexes, in the order of the indexes. -/
def pick (r : Row) (indexes : List Nat) : Except Error Row := do
  return ⟨← indexes.mapM r.get⟩

/-- Compares field by field as text; a row comes after the rows it continues. -/
def compare (r s : Row) : Ordering :=
  Ord.compare r.fields s.fields

end Row

end FlatQuery
