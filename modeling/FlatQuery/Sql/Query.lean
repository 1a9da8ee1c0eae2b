import FlatQuery.Text.Blank
import FlatQuery.Sql.Meaning

/-!
Queries as text.  What the statements of a text are is for a parser to say; what they mean does not
depend on the parser.
-/

namespace FlatQuery.Sql

/-- A parser of SQL: it delivers the statements of a text, or nothing if the text does not follow
its grammar. -/
class Parser where
  sentences? : String → Option (List Sentence)

/-- The query that a text holds: a single statement, which blanks may surround. -/
def parse [Parser] (text : String) : Except Error Select :=
  if (Text.trim text).isEmpty then .error .empty
  else
    match Parser.sentences? (Text.trim text) with
    | none => .error .malformed
    | some [] => .error .empty
    | some [s] => s.meaning
    | some (_ :: _ :: _) => .error .several

end FlatQuery.Sql
