/-!
Text cut at a character, and texts put together again.
-/

namespace FlatQuery.Text

/-- The pieces between the occurrences of `sep`: one more than there are occurrences. -/
def piecesAt (sep : Char) (s : String) : List String :=
  (s.toList.splitOn sep).map String.ofList

/-- The parts before and after the first `sep`; nothing if there is none. -/
def cutAt? (sep : Char) (s : String) : Option (String × String) :=
  match s.toList.span (· != sep) with
  | (_, []) => none
  | (front, _ :: back) => some (String.ofList front, String.ofList back)

def joined (sep : String) : List String → String
  | [] => ""
  | [s] => s
  | s :: rest => s ++ sep ++ joined sep rest

end FlatQuery.Text
