import FlatQuery.Files.Basic

/-!
Files opened for reading line by line.  Nothing is read when a file is opened; the first line asked
for brings in all there is, and when those lines are used up, whatever has been added meanwhile.
-/

namespace FlatQuery.Files

/-- An open file: what it was when it was opened, how many bytes have been read, and the lines read
but not yet used. -/
structure Handle where
  node : Node
  offset : Nat := 0
  pending : List (Option String) := []
  deriving DecidableEq, Repr

/-- Opens what stands at a path.  A directory can be opened, though not read. -/
def openPath (fs : Files) (p : Path) : Except Error Handle := do
  return { node := ← fs.find p }

namespace Handle

/-- The lines that follow those already read. -/
def unread (fs : Files) (h : Handle) : List (Option String) :=
  match h.node with
  | .directory => []
  | .file id => ((fs.content id).drop h.offset).lines

/-- The lines that are still to come. -/
def upcoming (fs : Files) (h : Handle) : List (Option String) :=
  h.pending ++ h.unread fs

/-- Brings in what the file holds beyond the bytes read. -/
def refill (fs : Files) (h : Handle) : Handle :=
  match h.node with
  | .directory => h
  | .file id => { h with
      offset := max h.offset (fs.content id).size
      pending := h.pending ++ h.unread fs }

end Handle

end FlatQuery.Files
