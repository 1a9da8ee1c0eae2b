import FlatQuery.Sql.Query
import FlatQuery.Plan.Instantiate
import FlatQuery.Rows.Output
import FlatQuery.Rows.ResultSet
import FlatQuery.Catalog.Schema

/-!
Databases: a directory with a schema and data files, and the queries over it.
-/

namespace FlatQuery

/-- Where the parts of a database are. -/
structure DatabaseConfig where
  /-- The directory of the database. -/
  path : Path := ⟨"."⟩
  /-- The schema, as seen from the directory. -/
  schemaFile : Path := ⟨"schema.txt"⟩
  /-- The directory of the data files, as seen from the directory. -/
  dataDir : Path := ⟨"data"⟩
  /-- Whether the catalog is kept in the directory. -/
  persistCatalog : Bool := false
  deriving DecidableEq, Repr, Inhabited

namespace DatabaseConfig

def schemaPath (c : DatabaseConfig) : Path :=
  c.path.join c.schemaFile

def dataPath (c : DatabaseConfig) : Path :=
  c.path.join c.dataDir

end DatabaseConfig

structure Database where
  config : DatabaseConfig
  catalog : Catalog
  deriving DecidableEq, Repr, Inhabited

namespace Database

/-- Why an operation on a database failed. -/
inductive Error where
  | parse (cause : Sql.Error)
  | plan (cause : Plan.Error)
  | rows (cause : Rows.Error)
  | catalog (cause : Catalog.Error)
  /-- There is no directory at the path of the database. -/
  | notFound (path : Path)
  /-- The output file could not be made. -/
  | file (cause : Files.Error)
  deriving Inhabited

def Error.message : Error → String
  | parse cause => "parse error: " ++ cause.message
  | plan cause => "planning error: " ++ cause.message
  | rows cause => "execution error: " ++ cause.message
  | catalog cause => "catalog error: " ++ cause.message
  | notFound path => "database not found: " ++ path.text
  | file cause => "io error: " ++ cause.message

/-! ### Opening -/

section

variable [Snapshot.Format]

/-- The catalog that an opened database starts with. -/
def firstCatalog (fs : Files) (config : DatabaseConfig) : Except Catalog.Error Catalog :=
  if config.persistCatalog then Catalog.openIn fs config.path else .ok {}

/-- Opens a database: its catalog, with the tables of its schema added. -/
def openWith (fs : Files) (config : DatabaseConfig) : Except Error Database × Files :=
  if !fs.isDirectory config.path then (.error (.notFound config.path), fs)
  else
    match firstCatalog fs config with
    | .error e => (.error (.catalog e), fs)
    | .ok catalog =>
      match Schema.load catalog fs config.schemaPath config.dataPath with
      | (.error e, _, fs) => (.error (.catalog e), fs)
      | (.ok _, catalog, fs) => (.ok { config, catalog }, fs)

end

/-! ### Queries -/

variable [Sql.Parser]

def parse (sql : String) : Except Error Select :=
  match Sql.parse sql with
  | .ok q => .ok q
  | .error e => .error (.parse e)

def prepare (db : Database) (fs : Files) (q : Select) : Except Error Plan.Prepared :=
  match Plan.prepare fs db.catalog q with
  | .ok p => .ok p
  | .error e => .error (.plan e)

/-- The answer to a query text. -/
def query (db : Database) (fs : Files) (sql : String) : Except Error Rows.ResultSet := do
  let p ← db.prepare fs (← parse sql)
  match p.cursor.collect fs with
  | .ok rows => return { columns := p.labels, rows }
  | .error e => .error (.rows e)

def writePrepared (fs : Files) (w : Rows.Writer) (p : Plan.Prepared) :
    Except Error Nat × Rows.Writer :=
  match p.cursor.write fs w with
  | (.ok n, w, _) => (.ok n, w)
  | (.error e, w, _) => (.error (.rows e), w)

/-- Writes the answer to a query text, and answers with the number of rows. -/
def write (db : Database) (fs : Files) (w : Rows.Writer) (sql : String) :
    Except Error Nat × Rows.Writer :=
  match parse sql >>= db.prepare fs with
  | .error e => (.error e, w)
  | .ok p => writePrepared fs w p

/-- The plan of a query text. -/
def explain (db : Database) (sql : String) : Except Error Plan := do
  let q ← parse sql
  match Plan.ofSelect db.catalog q with
  | .ok p => return p
  | .error e => .error (.plan e)

/-! ### Query files -/

def parseFile (fs : Files) (input : Path) : Except Error Select :=
  match fs.readText input with
  | .ok sql => parse sql
  | .error e => .error (.parse (.file input.text e))

/-- Makes an empty file at a path, and the directories above it; answers with its number. -/
def createOutput (fs : Files) (output : Path) : Except Files.Error Nat × Files :=
  match fs.makeParents output with
  | (.error e, fs) => (.error e, fs)
  | (.ok (), fs) =>
    match fs.write output (.text "") with
    | .error e => (.error e, fs)
    | .ok fs =>
      match fs.find output with
      | .ok (.file id) => (.ok id, fs)
      | .ok .directory => (.error .isADirectory, fs)
      | .error e => (.error e, fs)

/-- Writes the answer to the query in a file to another file.  That file is made only once the query
has been planned; then it keeps what could be written. -/
def runFile (db : Database) (fs : Files) (input output : Path) : Except Error Nat × Files :=
  match parseFile fs input >>= db.prepare fs with
  | .error e => (.error e, fs)
  | .ok p =>
    match createOutput fs output with
    | (.error e, fs) => (.error (.file e), fs)
    | (.ok id, fs) =>
      let (outcome, w) := writePrepared fs {} p
      (outcome, fs.setContent id (.ofBytes w.received))

/-! ### Tables -/

def tableNames (db : Database) : List String :=
  db.catalog.list.map (·.name)

end Database

end FlatQuery
