import FlatQuery.Rows.Operator
import FlatQuery.Json.Value

/-!
The rows of an answer, with the labels of their fields.
-/

namespace FlatQuery.Rows

/-- The labels of the fields, and the rows. -/
structure ResultSet where
  columns : List String
  rows : List Row := []
  deriving DecidableEq, Repr, Inhabited

namespace ResultSet

def lines (r : ResultSet) : List String :=
  r.rows.map (·.text)

/-- A field as JSON: a number if it is the text of an integer, and else a string. -/
def fieldJson (field : String) : Json :=
  match Integer.ofText? field with
  | some n => .integer n
  | none => .string field

/-- Sets a field of an object; an old value is replaced. -/
def setField (key : String) (value : Json) : List (String × Json) → List (String × Json)
  | [] => [(key, value)]
  | (k, v) :: rest => if k = key then (k, value) :: rest else (k, v) :: setField key value rest

/-- A row as a JSON object under the labels; where a label repeats, the last field counts. -/
def rowJson (columns : List String) (row : Row) : Json :=
  .object ((columns.zip row.fields).foldl
    (fun object (label, field) => setField label (fieldJson field) object) [])

/-- The rows as JSON objects. -/
def jsonRows (r : ResultSet) : List Json :=
  r.rows.map (rowJson r.columns)

end ResultSet

/-- The rows still to come, unless one of them cannot be had. -/
def Cursor.collect (fs : Files) (c : Cursor) : Except Error (List Row) :=
  match c.drain fs with
  | (rows, none, _) => .ok rows
  | (_, some e, _) => .error e

end FlatQuery.Rows
