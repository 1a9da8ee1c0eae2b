/-!
Text between quotes as it is written out: a quote inside is doubled, unless it already stands
doubled or after a backslash.
-/

namespace FlatQuery.Sql

/-- The characters between quotes `q`, given the character before them. -/
def escapeQuotes (q : Char) (before : Char) : List Char → List Char
  | [] => []
  | [c] => if c = q && before != '\\' then [c, c] else [c]
  | c :: d :: rest =>
    if c = q then
      if before = '\\' then c :: escapeQuotes q before (d :: rest)
      else if d = q then c :: d :: escapeQuotes q c rest
      else c :: c :: escapeQuotes q c (d :: rest)
    else c :: escapeQuotes q c (d :: rest)

def quoted (q : Char) (s : String) : String :=
  String.ofList (q :: escapeQuotes q '\x00' s.toList ++ [q])

/-- A string with backslash escapes for quotes, backslashes, line feeds, tabs and returns. -/
def backslashed (s : String) : String :=
  String.ofList (s.toList.flatMap fun c =>
    if c = '\'' then ['\\', '\'']
    else if c = '\\' then ['\\', '\\']
    else if c = '\n' then ['\\', 'n']
    else if c = '\t' then ['\\', 't']
    else if c = '\r' then ['\\', 'r']
    else [c])

end FlatQuery.Sql
