import FlatQuery.Files.Basic

/-!
What has to be done to files so that they become others.
-/

namespace FlatQuery.Files

/-- A step from some files to others. -/
inductive Change where
  | makeDirectory (place : Place)
  | write (place : Place) (content : Content)
  | remove (place : Place)
  deriving DecidableEq, Repr, Inhabited

def contentAt? (fs : Files) (place : Place) : Option Content :=
  match fs.node? place with
  | some (.file id) => some (fs.content id)
  | _ => none

/-- The step for an entry of the files that are to come, if it is not there already. -/
def Change.to? (before after : Files) (place : Place) : Node → Option Change
  | .directory =>
    if before.node? place = some .directory then none else some (makeDirectory place)
  | .file id =>
    if before.contentAt? place = some (after.content id) then none
    else some (write place (after.content id))

/-- The steps from some files to others: first what is new, a directory before what it holds, and
then what is gone. -/
def changes (before after : Files) : List Change :=
  (after.entries.reverse.filterMap fun (place, node) => Change.to? before after place node) ++
    (before.entries.filterMap fun (place, _) =>
      if (after.node? place).isNone then some (Change.remove place) else none)

end FlatQuery.Files
