import FlatQuery.Catalog.Basic

/-!
The stored form of a catalog.  Writing it replaces the old form in one step.  What the stored form
looks like, and which contents are understood, is left to a format.
-/

namespace FlatQuery

/-- What is stored of a catalog. -/
structure Snapshot where
  lastId : Nat
  savedAt : String
  tables : List Table
  deriving DecidableEq, Repr, Inhabited

namespace Snapshot

/-- A format that snapshots are stored in. -/
class Format where
  /-- Whether a text writes a moment. -/
  isMoment : String → Bool
  /-- The text that a snapshot is stored as. -/
  text : Snapshot → String
  /-- The snapshot that a content describes, if it is understood. -/
  ofContent? : Content → Option Snapshot

variable [Format]

/-- The name of the file, in the directory of its database. -/
def fileName : Path := ⟨"catalog.json"⟩

def read (fs : Files) (p : Path) : Except Catalog.Error Snapshot :=
  match fs.read p with
  | .error e => .error (.file e)
  | .ok c =>
    match Format.ofContent? c with
    | some s => .ok s
    | none => .error .snapshot

/-- Writes the snapshot at a path.  It is written under another name first, so what stood at the
path is replaced whole or not at all. -/
def write (fs : Files) (p : Path) (s : Snapshot) : Except Catalog.Error Unit × Files :=
  match fs.makeParents p with
  | (.error e, fs) => (.error (.file e), fs)
  | (.ok (), fs) =>
    match fs.write (p.extend ".tmp") (.text (Format.text s)) with
    | .error e => (.error (.file e), fs)
    | .ok fs =>
      match fs.rename (p.extend ".tmp") p with
      | .error e => (.error (.file e), fs)
      | .ok fs => (.ok (), fs)

end Snapshot

end FlatQuery
