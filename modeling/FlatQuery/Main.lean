import Std.Time.DateTime.Timestamp
import FlatQuery.CommandLine
import FlatQuery.Files.Change

/-!
The program: loads the files that a run may look at, runs, and writes back what has changed.
-/

namespace FlatQuery.Outside

def rootPath (place : Place) : String :=
  "/" ++ Text.joined "/" place

/-- Loads what stands at a place, if it can be read. -/
def loadPlace (fs : Files) (place : Place) : IO Files := do
  if (fs.node? place).isSome then return fs
  let path := (← IO.currentDir).join ⟨rootPath place⟩
  if ← path.isDir then return fs.put place .directory
  try
    return fs.addFile place (.ofBytes (← IO.FS.readBinFile path).toList)
  catch _ => return fs

/-- Loads what stands on the way along steps from a place. -/
def loadSteps (fs : Files) (place : Place) : List String → IO Files
  | [] => return fs
  | step :: rest => do
    if step = "." then loadSteps fs place rest
    else if step = ".." then loadSteps fs place.dropLast rest
    else loadSteps (← loadPlace fs (place ++ [step])) (place ++ [step]) rest

def loadPath (fs : Files) (p : Path) : IO Files :=
  loadSteps fs (fs.start p) p.walk

/-- Loads the files that a run with arguments may look at. -/
def load (args : List String) : IO Files := do
  let now ← Std.Time.Timestamp.now
  let current := (Path.mk (← IO.currentDir).toString).walk
  let now := Text.Moment.ofSeconds now.toSecondsSinceUnixEpoch.val.toNat
  let fs ← loadSteps { now, current } [] current
  match CommandLine.readArguments {} args with
  | .error _ => return fs
  | .ok r =>
    let fs ← r.paths.foldlM loadPath fs
    (r.dataFiles fs).foldlM loadPath fs

def apply : Files.Change → IO Unit
  | .makeDirectory place => IO.FS.createDir (rootPath place)
  | .write place content => IO.FS.writeBinFile (rootPath place) ⟨content.bytes.toArray⟩
  | .remove place => IO.FS.removeFile (rootPath place)

end FlatQuery.Outside

def main (args : List String) : IO UInt32 := do
  let before ← FlatQuery.Outside.load args
  let (outcome, after) := FlatQuery.CommandLine.run before args
  (FlatQuery.Files.changes before after).forM FlatQuery.Outside.apply
  IO.print outcome.stdout
  IO.eprint outcome.stderr
  return UInt32.ofNat outcome.code
