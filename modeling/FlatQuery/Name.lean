import FlatQuery.Text.Blank
import FlatQuery.Text.Lowercase

/-!
Names of tables and columns.  Two spellings mean the same name if they agree after trimming and
lower-casing.  Sets of names are lists in strictly increasing order.
-/

namespace FlatQuery.Name

/-- The form in which names are stored and compared. -/
def canonical (name : String) : String :=
  Text.lowercase (Text.trim name)

/-- Adds a name to an increasing list, unless it is there. -/
def insert (name : String) : List String → List String
  | [] => [name]
  | other :: rest =>
    if name = other then other :: rest
    else if name < other then name :: other :: rest
    else other :: insert name rest

/-- The names in increasing order, each once. -/
def sorted (names : List String) : List String :=
  names.foldl (fun set name => insert name set) []

end FlatQuery.Name
