import FlatQuery.Catalog.Error
import FlatQuery.Catalog.Table

/-!
Catalogs: the tables of a database by number and by name.  Numbers are given out in increasing
order and never used again.
-/

namespace FlatQuery

/-- The tables that are known. -/
structure Catalog where
  /-- The file that the catalog is kept in, if it is kept. -/
  location : Option Path := none
  /-- The tables, by increasing number. -/
  tables : List Table := []
  /-- The numbers of the tables under their canonical names. -/
  index : List (String × Nat) := []
  /-- The last number given out. -/
  lastId : Nat := 0
  deriving DecidableEq, Repr, Inhabited

namespace Catalog

/-! ### Looking up -/

def byId? (c : Catalog) (id : Nat) : Option Table :=
  c.tables.find? (·.id == id)

/-- The table with a name, however it is spelled. -/
def find? (c : Catalog) (name : String) : Option Table :=
  (c.index.lookup (Name.canonical name)).bind c.byId?

/-- The table with a name, or the complaint that there is none. -/
def get (c : Catalog) (name : String) : Except Error Table :=
  match c.find? name with
  | some t => .ok t
  | none => .error (.tableNotFound name)

def has (c : Catalog) (name : String) : Bool :=
  (c.index.lookup (Name.canonical name)).isSome

def list (c : Catalog) : List Table :=
  c.tables.mergeSort fun a b => !(b.name < a.name)

/-! ### Changing -/

/-- Puts a table among tables by increasing number; one of the same number is replaced. -/
def insertTable (t : Table) : List Table → List Table
  | [] => [t]
  | u :: rest =>
    if t.id < u.id then t :: u :: rest
    else if t.id = u.id then t :: rest
    else u :: insertTable t rest

def setIndex (name : String) (id : Nat) (index : List (String × Nat)) : List (String × Nat) :=
  (name, id) :: index.filter (·.1 != name)

def add (c : Catalog) (t : Table) : Catalog :=
  { c with
    tables := insertTable t c.tables
    index := setIndex (Name.canonical t.name) t.id c.index }

/-- Removes what a name means. -/
def forget (c : Catalog) (name : String) (id : Nat) : Catalog :=
  { c with
    tables := c.tables.filter (·.id != id)
    index := c.index.filter (·.1 != Name.canonical name) }

end Catalog

end FlatQuery
