import FlatQuery.Catalog.Store

/-!
Schema texts: a table on each line, its name and then the names of its columns.  Blank lines and
lines that start with a number sign declare nothing.
-/

namespace FlatQuery

/-- A table that a schema text declares; the name is kept as it is written. -/
structure Declaration where
  name : String
  columns : List Column
  deriving DecidableEq, Repr, Inhabited

namespace Declaration

def dataFile (d : Declaration) (dataDir : Path) : Path :=
  dataDir.join ⟨d.name ++ ".csv"⟩

end Declaration

namespace Schema

/-- Whether the line declares nothing. -/
def isSilent (line : String) : Bool :=
  let line := Text.trim line
  line.isEmpty || line.toList.head? == some '#'

def declaration? (line : String) : Option Declaration :=
  match Text.words line with
  | name :: column :: rest => some { name, columns := (column :: rest).map fun c => .named c }
  | _ => none

/-- The declarations on lines, the first of which has the given number. -/
def parseLines (number : Nat) : List String → Except Catalog.Error (List Declaration)
  | [] => .ok []
  | line :: rest =>
    if isSilent line then parseLines (number + 1) rest
    else
      match declaration? line with
      | some d => do
        let ds ← parseLines (number + 1) rest
        return d :: ds
      | none => .error (.lineWithoutColumns number ((Text.words line).headD ""))

/-- The declarations of a schema text. -/
def parse (text : String) : Except Catalog.Error (List Declaration) :=
  parseLines 1 (Text.lines text)

/-- Whether a known table is as declared; if not, what is different. -/
def agree (known : Table) (d : Declaration) (dataDir : Path) : Except Catalog.Error Unit :=
  if known.columns != d.columns then
    .error (.columnsDiffer known.name known.columnNames (d.columns.map (·.name)))
  else if !known.dataFile.same (d.dataFile dataDir) then
    .error (.fileDiffers known.name known.dataFile (d.dataFile dataDir))
  else .ok ()

variable [Snapshot.Format]

/-- Adds the declared tables that are not known yet; the answer is their number. -/
def register (dataDir : Path) (c : Catalog) (fs : Files) (count : Nat) :
    List Declaration → Except Catalog.Error Nat × Catalog × Files
  | [] => (.ok count, c, fs)
  | d :: rest =>
    match c.find? d.name with
    | some known =>
      match agree known d dataDir with
      | .error e => (.error e, c, fs)
      | .ok () => register dataDir c fs count rest
    | none =>
      match c.register fs d.name d.columns (d.dataFile dataDir) with
      | (.error e, c, fs) => (.error e, c, fs)
      | (.ok _, c, fs) => register dataDir c fs (count + 1) rest

/-- Reads a schema file into a catalog; the answer is the number of tables added. -/
def load (c : Catalog) (fs : Files) (schema dataDir : Path) :
    Except Catalog.Error Nat × Catalog × Files :=
  match fs.readText schema with
  | .error e => (.error (.file e), c, fs)
  | .ok text =>
    match parse text with
    | .error e => (.error e, c, fs)
    | .ok ds => register dataDir c fs 0 ds

end Schema

end FlatQuery
