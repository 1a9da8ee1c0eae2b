import FlatQuery.Text.Pieces

/-!
Paths of files.  A path keeps the text it was written with; two texts name the same place if their
steps agree.
-/

namespace FlatQuery

/-- A path as it was written. -/
structure Path where
  text : String
  deriving DecidableEq, Repr, Inhabited

namespace Path

instance : ToString Path := ⟨Path.text⟩

def isAbsolute (p : Path) : Bool :=
  p.text.toList.head? == some '/'

/-- The steps of a path.  The root counts as a step; empty steps are left out, and so is a dot, but
for one that opens a relative path. -/
def steps (p : Path) : List String :=
  let pieces := Text.piecesAt '/' p.text
  let body := pieces.filter fun s => !s.isEmpty && s != "."
  if p.isAbsolute then "/" :: body
  else if pieces.head? == some "." then "." :: body
  else body

/-- The steps of a path without the root. -/
def walk (p : Path) : List String :=
  if p.isAbsolute then p.steps.drop 1 else p.steps

def same (p q : Path) : Bool :=
  p.steps == q.steps

/-- Whether the text ends in a way that only a directory allows. -/
def asksDirectory (p : Path) : Bool :=
  match p.text.toList.reverse with
  | '/' :: _ => true
  | ['.'] => true
  | '.' :: '/' :: _ => true
  | _ => false

/-- The path `q` as seen from the directory `p`. -/
def join (p q : Path) : Path :=
  if q.isAbsolute || p.text.isEmpty then q
  else if p.text.toList.getLast? == some '/' then ⟨p.text ++ q.text⟩
  else ⟨p.text ++ "/" ++ q.text⟩

/-- The path with a text added to the name that it ends with; slashes and dots behind the name are
dropped.  Where a path does not end with a name, the text names something below it. -/
def extend (p : Path) (suffix : String) : Path :=
  match (Text.piecesAt '/' p.text).reverse.dropWhile fun s => s.isEmpty || s == "." with
  | [] => p.join ⟨suffix⟩
  | last :: front =>
    if last = ".." then p.join ⟨suffix⟩
    else ⟨Text.joined "/" (front.reverse ++ [last ++ suffix])⟩

end Path

end FlatQuery
