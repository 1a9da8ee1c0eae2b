import FlatQuery.Files.Path
import FlatQuery.Files.Content

/-!
The files that a database works on, as a value.  A directory entry names a place and points at a
content by number, so that a file which is removed or replaced while it is open keeps its content
for those who opened it.
-/

namespace FlatQuery

/-- A place: the names on the way to it from the root. -/
abbrev Place := List String

namespace Files

/-- Why an access to a file failed. -/
inductive Error where
  | notFound
  | isADirectory
  | notADirectory
  | alreadyExists
  | invalidData
  | brokenPipe
  deriving DecidableEq, Repr, Inhabited

def Error.message : Error → String
  | notFound => "No such file or directory (os error 2)"
  | isADirectory => "Is a directory (os error 21)"
  | notADirectory => "Not a directory (os error 20)"
  | alreadyExists => "File exists (os error 17)"
  | invalidData => "stream did not contain valid UTF-8"
  | brokenPipe => "Broken pipe (os error 32)"

/-- What stands at a place. -/
inductive Node where
  | directory
  | file (id : Nat)
  deriving DecidableEq, Repr, Inhabited

end Files

/-- Files, the working directory, and the time on the clock. -/
structure Files where
  entries : List (Place × Files.Node) := []
  contents : List Content := []
  current : Place := []
  now : String := "1970-01-01T00:00:00Z"
  deriving Inhabited

namespace Files

/-! ### Places -/

/-- What stands at a place; the root itself is always there. -/
def node? (fs : Files) (place : Place) : Option Node :=
  if place = [] then some .directory else fs.entries.lookup place

def put (fs : Files) (place : Place) (node : Node) : Files :=
  { fs with entries := (place, node) :: fs.entries.filter (·.1 != place) }

def unlink (fs : Files) (place : Place) : Files :=
  { fs with entries := fs.entries.filter (·.1 != place) }

/-- The place that steps lead to, from a place.  Every place on the way must be a directory. -/
def follow (fs : Files) (place : Place) : List String → Except Error Place
  | [] => .ok place
  | step :: rest =>
    match fs.node? place with
    | none => .error .notFound
    | some (.file _) => .error .notADirectory
    | some .directory =>
      if step = "." then fs.follow place rest
      else if step = ".." then fs.follow place.dropLast rest
      else fs.follow (place ++ [step]) rest

/-- Where a path starts: at the root or in the working directory. -/
def start (fs : Files) (p : Path) : Place :=
  if p.isAbsolute then [] else fs.current

/-- The place of a path.  The last name need not be there. -/
def place (fs : Files) (p : Path) : Except Error Place :=
  if p.text.isEmpty then .error .notFound else fs.follow (fs.start p) p.walk

def find (fs : Files) (p : Path) : Except Error Node := do
  let place ← fs.place p
  match fs.node? place with
  | none => .error .notFound
  | some (.file id) => if p.asksDirectory then .error .notADirectory else .ok (.file id)
  | some .directory => .ok .directory

def isThere (fs : Files) (p : Path) : Bool :=
  (fs.find p).toOption.isSome

def isDirectory (fs : Files) (p : Path) : Bool :=
  match fs.find p with
  | .ok .directory => true
  | _ => false

/-! ### Reading -/

def content (fs : Files) (id : Nat) : Content :=
  fs.contents.getD id (.text "")

def read (fs : Files) (p : Path) : Except Error Content := do
  match ← fs.find p with
  | .directory => .error .isADirectory
  | .file id => .ok (fs.content id)

def readText (fs : Files) (p : Path) : Except Error String := do
  match (← fs.read p).text? with
  | some s => .ok s
  | none => .error .invalidData

/-- The names in the directory at a path, without those further below. -/
def names (fs : Files) (p : Path) : List String :=
  match fs.place p with
  | .error _ => []
  | .ok dir =>
    fs.entries.filterMap fun (place, _) =>
      if place.dropLast = dir then place.getLast? else none

/-! ### Changing -/

def setContent (fs : Files) (id : Nat) (c : Content) : Files :=
  { fs with contents := fs.contents.set id c }

/-- Adds a file at a free place. -/
def addFile (fs : Files) (place : Place) (c : Content) : Files :=
  { fs.put place (.file fs.contents.length) with contents := fs.contents ++ [c] }

/-- Writes the file at a path, which is made if need be. -/
def write (fs : Files) (p : Path) (c : Content) : Except Error Files := do
  let place ← fs.place p
  match fs.node? place with
  | some .directory => .error .isADirectory
  | some (.file id) => if p.asksDirectory then .error .notADirectory else .ok (fs.setContent id c)
  | none => if p.asksDirectory then .error .isADirectory else .ok (fs.addFile place c)

/-- Makes the directories that the steps name, one below the other, as far as they are missing.  Where
a file is in the way, those made before it stay. -/
def makeSteps (fs : Files) (place : Place) : List String → Except Error Unit × Files
  | [] => (.ok (), fs)
  | step :: rest =>
    if step = "." then fs.makeSteps place rest
    else if step = ".." then fs.makeSteps place.dropLast rest
    else
      let next := place ++ [step]
      match fs.node? next with
      | some .directory => fs.makeSteps next rest
      | some (.file _) => (.error (if rest.isEmpty then .alreadyExists else .notADirectory), fs)
      | none =>
        -- once one is missing, those below it are made one at a time, and a file is found as such
        match (fs.put next .directory).makeSteps next rest with
        | (.error _, fs) => (.error .alreadyExists, fs)
        | (.ok (), fs) => (.ok (), fs)

def createSteps (fs : Files) (place : Place) (steps : List String) : Except Error Files :=
  match fs.makeSteps place steps with
  | (.error e, _) => .error e
  | (.ok (), fs) => .ok fs

/-- Makes the directory at a path and those above it, as far as they are missing. -/
def createDirectories (fs : Files) (p : Path) : Except Error Files :=
  fs.createSteps (fs.start p) p.walk

/-- Makes the directories above a path, as far as they are missing; some may be made although others
cannot be. -/
def makeParents (fs : Files) (p : Path) : Except Error Unit × Files :=
  fs.makeSteps (fs.start p) p.walk.dropLast

def createParents (fs : Files) (p : Path) : Except Error Files :=
  fs.createSteps (fs.start p) p.walk.dropLast

/-- Lets a file stand at another place; what stood there is gone.  Two names of one file both stay. -/
def move (fs : Files) (old new : Place) (id : Nat) : Files :=
  if fs.node? new = some (.file id) then fs else (fs.unlink old).put new (.file id)

/-- Moves a file to the place of another path. -/
def rename (fs : Files) (source target : Path) : Except Error Files := do
  let old ← fs.place source
  match ← fs.find source with
  | .directory => .error .isADirectory
  | .file id =>
    let new ← fs.place target
    if target.asksDirectory then .error .notADirectory
    else
      match fs.node? new with
      | some .directory => .error .isADirectory
      | _ => .ok (fs.move old new id)

/-- Removes the file at a path. -/
def remove (fs : Files) (p : Path) : Except Error Files := do
  match ← fs.find p with
  | .directory => .error .isADirectory
  | .file _ =>
    let place ← fs.place p
    .ok (fs.unlink place)

/-- Removes whatever stands at a path and below it. -/
def removeTree (fs : Files) (p : Path) : Files :=
  match fs.place p with
  | .error _ => fs
  | .ok place => { fs with entries := fs.entries.filter fun e => !place.isPrefixOf e.1 }

end Files

end FlatQuery
