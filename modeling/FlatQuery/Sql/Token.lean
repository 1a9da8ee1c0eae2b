import FlatQuery.Text.Letter
import FlatQuery.Sql.Quoted

/-!
The tokens of SQL.
-/

namespace FlatQuery.Sql

/-- A name, with the quotes it is written in, if any. -/
structure Ident where
  value : String
  quote : Option Char := none
  deriving DecidableEq, Repr, Inhabited

/-- The name as it is written. -/
def Ident.text (i : Ident) : String :=
  match i.quote with
  | none => i.value
  | some q => quoted q i.value

/-- A token.  Blanks and comments between tokens are not kept. -/
inductive Token where
  /-- A word: a name or a keyword. -/
  | word (name : Ident)
  /-- A number; a letter `L` at its end is not part of its digits. -/
  | number (digits : String) (long : Bool)
  /-- A plain string. -/
  | string (value : String)
  /-- Any other literal, as it is written out. -/
  | constant (text : String)
  /-- An operator or a mark of punctuation. -/
  | symbol (text : String)
  deriving DecidableEq, Repr, Inhabited

/-! ### Keywords -/

/-- The capitals of a character, as far as they are Latin letters without marks. -/
def capitals (c : Char) : List Char :=
  if c = 'ſ' then ['S']
  else if c = 'ı' then ['I']
  else if c = 'ß' then ['S', 'S']
  else if c = 'ﬀ' then ['F', 'F']
  else if c = 'ﬁ' then ['F', 'I']
  else if c = 'ﬂ' then ['F', 'L']
  else if c = 'ﬃ' then ['F', 'F', 'I']
  else if c = 'ﬄ' then ['F', 'F', 'L']
  else if c = 'ﬅ' || c = 'ﬆ' then ['S', 'T']
  else [c.toUpper]

def capitalised (s : String) : String :=
  String.ofList (s.toList.flatMap capitals)

/-- The keyword that a token may be: a word without quotes, in capitals. -/
def Token.keyword? : Token → Option String
  | word { value, quote := none } => some (capitalised value)
  | _ => none

def Token.isKeyword (t : Token) (keyword : String) : Bool :=
  t.keyword? == some keyword

end FlatQuery.Sql
