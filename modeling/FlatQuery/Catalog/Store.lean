import FlatQuery.Catalog.Snapshot

/-!
Operations on a catalog that is kept in a file.  Each answers with the catalog and the files as
they are afterwards.  The catalog is changed before it is written, so a failure to write leaves the
change in place.
-/

namespace FlatQuery.Catalog

variable [Snapshot.Format]

/-- The catalog that a snapshot holds. -/
def ofSnapshot (location : Path) (s : Snapshot) : Catalog :=
  s.tables.foldl add { location := some location, lastId := s.lastId }

def snapshot (c : Catalog) (savedAt : String) : Snapshot :=
  { lastId := c.lastId, savedAt, tables := c.tables }

/-- The catalog kept in a directory; an empty one if there is none yet. -/
def openIn (fs : Files) (root : Path) : Except Error Catalog :=
  let path := root.join Snapshot.fileName
  if fs.isThere path then do
    return ofSnapshot path (← Snapshot.read fs path)
  else .ok { location := some path }

/-- Writes the catalog to its file, if it has one. -/
def flush (c : Catalog) (fs : Files) : Except Error Unit × Files :=
  match c.location with
  | none => (.ok (), fs)
  | some path => (c.snapshot fs.now).write fs path

/-- Adds a table whose rows are in a data file. -/
def register (c : Catalog) (fs : Files) (name : String) (columns : List Column) (file : Path) :
    Except Error Table × Catalog × Files :=
  let name := Name.canonical name
  if columns.isEmpty then (.error (.noColumns name), c, fs)
  else if c.has name then (.error (.tableExists name), c, fs)
  else
    let t := Table.named (c.lastId + 1) name columns file
    let c := { c.add t with lastId := c.lastId + 1 }
    match c.flush fs with
    | (.error e, fs) => (.error e, c, fs)
    | (.ok (), fs) => (.ok t, c, fs)

/-- Removes a table, and its data file too if asked to.  The answer is whether there was one. -/
def drop (c : Catalog) (fs : Files) (name : String) (deleteFile : Bool) :
    Except Error Bool × Catalog × Files :=
  match c.index.lookup (Name.canonical name) with
  | none => (.ok false, c, fs)
  | some id =>
    let removed := c.byId? id
    let c := c.forget name id
    match c.flush fs with
    | (.error e, fs) => (.error e, c, fs)
    | (.ok (), fs) =>
      match deleteFile, removed with
      | true, some t =>
        match fs.remove t.dataFile with
        | .ok fs => (.ok true, c, fs)
        | .error .notFound => (.ok true, c, fs)
        | .error e => (.error (.file e), c, fs)
      | _, _ => (.ok true, c, fs)

end FlatQuery.Catalog
