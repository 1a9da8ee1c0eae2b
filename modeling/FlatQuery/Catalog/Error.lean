import FlatQuery.Files.Basic

/-!
What can go wrong with a catalog.
-/

namespace FlatQuery.Catalog

/-- Why an operation on a catalog failed. -/
inductive Error where
  /-- No table has the name. -/
  | tableNotFound (name : String)
  /-- A table has the name already. -/
  | tableExists (name : String)
  /-- A table without columns. -/
  | noColumns (name : String)
  /-- A line of a schema text names a table and no columns. -/
  | lineWithoutColumns (line : Nat) (table : String)
  /-- A schema text gives a known table other columns. -/
  | columnsDiffer (table : String) (known declared : List String)
  /-- A schema text gives a known table another data file. -/
  | fileDiffers (table : String) (known expected : Path)
  /-- A file could not be read, written or removed. -/
  | file (cause : Files.Error)
  /-- The stored catalog cannot be understood. -/
  | snapshot
  deriving DecidableEq, Repr, Inhabited

def Error.message : Error → String
  | tableNotFound name => "table not found: " ++ name
  | tableExists name => "table already exists: " ++ name
  | noColumns name => "table must have at least one column: " ++ name
  | lineWithoutColumns line table =>
    "invalid schema at line " ++ toString line ++ ": table '" ++ table ++ "' declares no columns"
  | columnsDiffer table known declared =>
    "schema mismatch for table '" ++ table ++ "': catalog has [" ++ Text.joined ", " known ++
      "] but schema file has [" ++ Text.joined ", " declared ++ "]"
  | fileDiffers table known expected =>
    "schema mismatch for table '" ++ table ++ "': catalog points to " ++ known.text ++
      " but expected " ++ expected.text
  | file cause => "io error: " ++ cause.message
  | snapshot => "corrupted catalog snapshot"

end FlatQuery.Catalog
