import FlatQuery.Catalog.Document
import FlatQuery.Database
import FlatQuery.Sql.Grammar.Sentences

/-!
The command line: a database directory, a file with a query, and a file for the answer.
-/

namespace FlatQuery.CommandLine

/-- What the arguments ask for. -/
structure Request where
  verbose : Bool := false
  persistCatalog : Bool := false
  positional : List Path := []
  deriving DecidableEq, Repr, Inhabited

/-- How a run ended. -/
inductive Outcome where
  | help
  | version
  | unknownOption (option : String)
  | usage
  | finished
  | failed (cause : Database.Error)
  deriving Inhabited

def usageLine : String :=
  "Usage: lightdb database_dir input_file output_file"

def helpText : String :=
  Text.joined "\n" [
    "LightDB - A lightweight flat-file SQL query engine",
    "",
    usageLine,
    "",
    "Arguments:",
    "  database_dir         Directory holding schema.txt and data/",
    "  input_file           File containing one SELECT statement",
    "  output_file          File the result rows are written to",
    "",
    "Options:",
    "  -v, --verbose        Enable debug logging (RUST_LOG overrides)",
    "  --persist-catalog    Keep catalog.json in the database directory",
    "  -h, --help           Show this help message",
    "  --version            Show version",
    ""]

namespace Outcome

/-- The exit code: zero for success. -/
def code : Outcome → Nat
  | help => 0
  | version => 0
  | finished => 0
  | _ => 1

def stdout : Outcome → String
  | help => helpText
  | version => "lightdb v0.1.0\n"
  | _ => ""

def stderr : Outcome → String
  | unknownOption o => "Unknown option: " ++ o ++ "\n" ++ usageLine ++ "\n"
  | usage => usageLine ++ "\n"
  | failed cause => "Error: " ++ cause.message ++ "\n"
  | _ => ""

end Outcome

/-- Reads the arguments from left to right; some of them end the run at once. -/
def readArguments (r : Request) : List String → Except Outcome Request
  | [] => .ok r
  | arg :: rest =>
    if arg = "-v" || arg = "--verbose" then readArguments { r with verbose := true } rest
    else if arg = "--persist-catalog" then readArguments { r with persistCatalog := true } rest
    else if arg = "-h" || arg = "--help" then .error .help
    else if arg = "--version" then .error .version
    else if arg.toList.head? = some '-' then .error (.unknownOption arg)
    else readArguments { r with positional := r.positional ++ [⟨arg⟩] } rest

/-! ### Files that matter -/

/-- The paths of the files that a run may look at, apart from data files. -/
def Request.paths (r : Request) : List Path :=
  match r.positional with
  | [dir, input, output] =>
    let config : DatabaseConfig := { path := dir }
    let catalog := dir.join Snapshot.fileName
    [dir, config.schemaPath, config.dataPath, catalog, catalog.extend ".tmp", input, output]
  | _ => []

/-- The paths of the data files that a run may look at. -/
def Request.dataFiles (fs : Files) (r : Request) : List Path :=
  match r.positional with
  | dir :: _ =>
    match Database.openWith fs { path := dir, persistCatalog := r.persistCatalog } with
    | (.ok db, _) => db.catalog.list.map (·.dataFile)
    | (.error _, _) => []
  | [] => []

/-! ### Runs -/

/-- Opens a database and runs a query file over it. -/
def runRequest (fs : Files) (persistCatalog : Bool) (dir input output : Path) : Outcome × Files :=
  match Database.openWith fs { path := dir, persistCatalog } with
  | (.error e, fs) => (.failed e, fs)
  | (.ok db, fs) =>
    match db.runFile fs input output with
    | (.error e, fs) => (.failed e, fs)
    | (.ok _, fs) => (.finished, fs)

def run (fs : Files) (args : List String) : Outcome × Files :=
  match readArguments {} args with
  | .error outcome => (outcome, fs)
  | .ok r =>
    match r.positional with
    | [dir, input, output] => runRequest fs r.persistCatalog dir input output
    | _ => (.usage, fs)

end FlatQuery.CommandLine
