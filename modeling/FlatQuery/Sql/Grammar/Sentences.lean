import FlatQuery.Sql.Query
import FlatQuery.Sql.Scan
import FlatQuery.Sql.Grammar.Expression
import FlatQuery.Sql.Grammar.Statement

/-!
All levels of the grammar, and the statements of a text.
-/

namespace FlatQuery.Sql.Grammar

open Reader

/-! ### Levels -/

/-- The readers above a level, and above the one that is on a par with it inside CONNECT BY. -/
def above (below related : Level) : Level where
  phrase := phrase below
  query := query below
  body := body below
  factor := factor below
  statement := statement below
  relation := phrase related 0
  allowsPrior := below.allowsPrior

/-- The readers on a level inside CONNECT BY; on level zero nothing can be read. -/
def relatedLevel : Nat → Level
  | 0 => .empty true
  | n + 1 =>
    let below := relatedLevel n
    above below below

/-- The readers on a level; on level zero nothing can be read. -/
def level : Nat → Level
  | 0 => .empty false
  | n + 1 => above (level n) (relatedLevel n)

/-- How deeply expressions, queries and statements may be nested. -/
def nestingLimit : Nat := 49

/-- More levels than constructs can be nested within the limit. -/
def levels : Nat := 256

def skipSemicolons : Nat → Reader Bool
  | 0 => return false
  | fuel + 1 => do
    if ← mark ";" then
      let _ ← skipSemicolons fuel
      return true
    else return false

/-- Statements with semicolons between them, at most `fuel`.  The word END after a statement ends
them all. -/
def statements : Nat → Bool → Reader (List Sentence)
  | 0, _ => unexpected
  | fuel + 1, afterOne => do
    let separated ← skipSemicolons (← upcoming).length
    let afterOne := afterOne && !separated
    match ← peek with
    | none => return []
    | some t =>
      if afterOne then
        if t.isKeyword "END" then return [] else unexpected
      else return (← (level levels).statement) :: (← statements fuel true)

def sentences? (tokens : List Token) : Option (List Sentence) :=
  match statements (tokens.length + 1) false nestingLimit tokens with
  | .ok (found, _) => some found
  | .error _ => none

/-- The parser of this grammar, which leaves out MATCH_RECOGNIZE after a table and many statements
that hold no query. -/
instance parser : Parser where
  sentences? text := (scan text).bind sentences?

end FlatQuery.Sql.Grammar
