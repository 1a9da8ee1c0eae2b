import FlatQuery.Text.Blank
import FlatQuery.Text.Integer
import FlatQuery.Sql.Token

/-!
From characters to tokens.  Each step takes a token or a stretch of blanks and comments off the
front of the text; a text that cannot be cut into tokens has none.
-/

namespace FlatQuery.Sql

open Integer (isDigit)

/-! ### Words and numbers -/

/-- Whether a word can start with the character. -/
def startsWord (c : Char) : Bool :=
  Text.isLetter c || c = '_' || c = '#' || c = '@'

/-- Whether a word can go on with the character. -/
def continuesWord (c : Char) : Bool :=
  Text.isLetter c || isDigit c || c = '@' || c = '$' || c = '#' || c = '_'

/-- What a step takes: a token or nothing, and the characters after it. -/
abbrev Taken := Option Token × List Char

def takeWord (front rest : List Char) : Taken :=
  (some (.word { value := String.ofList (front ++ rest.takeWhile continuesWord) }),
    rest.dropWhile continuesWord)

/-- The exponent at the front, if there is one: a letter `e`, a sign or none, and digits. -/
def takeExponent : List Char → List Char × List Char
  | [] => ([], [])
  | e :: rest =>
    if e = 'e' || e = 'E' then
      match rest with
      | s :: d :: more =>
        if isDigit s then (e :: rest.takeWhile isDigit, rest.dropWhile isDigit)
        else if (s = '+' || s = '-') && isDigit d then
          (e :: s :: (d :: more).takeWhile isDigit, (d :: more).dropWhile isDigit)
        else ([], e :: rest)
      | [d] => if isDigit d then ([e, d], []) else ([], [e, d])
      | [] => ([], [e])
    else ([], e :: rest)

/-- The letter that marks a long number. -/
def takeLong : List Char → Bool × List Char
  | 'L' :: rest => (true, rest)
  | rest => (false, rest)

/-- A number, or a period that no digit follows. -/
def takeNumber (cs : List Char) : Taken :=
  let whole := cs.takeWhile isDigit
  let rest := cs.dropWhile isDigit
  match whole, rest with
  | ['0'], 'x' :: rest =>
    let isHex c := isDigit c || ('a' ≤ c && c ≤ 'f') || ('A' ≤ c && c ≤ 'F')
    (some (.constant ("X'" ++ String.ofList (rest.takeWhile isHex) ++ "'")), rest.dropWhile isHex)
  | _, _ =>
    let (point, rest) := match rest with
      | '.' :: rest => (['.'], rest)
      | rest => ([], rest)
    let digits := whole ++ point ++ rest.takeWhile isDigit
    let rest := rest.dropWhile isDigit
    if digits = ['.'] then (some (.symbol "."), rest)
    else
      let (exponent, rest) := takeExponent rest
      let (long, rest) := takeLong rest
      (some (.number (String.ofList (digits ++ exponent)) long), rest)

/-! ### Quoted text -/

/-- The characters up to the closing quote; a doubled quote stands for one. -/
def takeQuoted (q : Char) : List Char → Option (List Char × List Char)
  | [] => none
  | [c] => if c = q then some ([], []) else none
  | c :: d :: rest =>
    if c = q then
      if d = q then (takeQuoted q rest).map fun (s, r) => (q :: s, r)
      else some ([], d :: rest)
    else (takeQuoted q (d :: rest)).map fun (s, r) => (c :: s, r)

/-- The characters up to the closing quote, of a text in which nothing is escaped. -/
def takeRaw (q : Char) (cs : List Char) : Option (List Char × List Char) :=
  match cs.dropWhile (· != q) with
  | [] => none
  | _ :: rest => some (cs.takeWhile (· != q), rest)

/-- The character that a letter after a backslash means. -/
def backslashMeaning (c : Char) : Char :=
  if c = 'b' then '\x08'
  else if c = 'f' then '\x0c'
  else if c = 'n' then '\n'
  else if c = 'r' then '\r'
  else if c = 't' then '\t'
  else c

/-- The characters up to the closing quote, of a text with backslash escapes. -/
def takeEscaped : List Char → Option (List Char × List Char)
  | [] => none
  | '\\' :: c :: rest => (takeEscaped rest).map fun (s, r) => (backslashMeaning c :: s, r)
  | '\'' :: '\'' :: rest => (takeEscaped rest).map fun (s, r) => ('\'' :: s, r)
  | '\'' :: rest => some ([], rest)
  | c :: rest => (takeEscaped rest).map fun (s, r) => (c :: s, r)

/-- A literal between quotes, written out between a lead and a tail. -/
def takeConstant (lead tail : String) (body : Option (List Char × List Char)) : Option Taken :=
  body.map fun (s, rest) => (some (.constant (lead ++ String.ofList s ++ tail)), rest)

def takeUpTo (mark : List Char) : List Char → Option (List Char × List Char)
  | [] => none
  | c :: rest =>
    if mark.isPrefixOf (c :: rest) then some ([], (c :: rest).drop mark.length)
    else (takeUpTo mark rest).map fun (s, r) => (c :: s, r)

/-- Whether the character may stand in the tag of a dollar quote. -/
def isTagChar (c : Char) : Bool :=
  Text.isLetter c || isDigit c || c = '_'

/-- A dollar quote, or a placeholder; `rest` follows the dollar sign. -/
def takeDollar (rest : List Char) : Option Taken :=
  let tag := rest.takeWhile isTagChar
  match rest.dropWhile isTagChar with
  | '$' :: body =>
    let mark := String.ofList ('$' :: tag ++ ['$'])
    takeConstant mark mark (takeUpTo mark.toList body)
  | rest => some (some (.constant (String.ofList ('$' :: tag))), rest)

/-! ### Blanks and comments -/

/-- The text after the end of a comment that has `depth + 1` openings left to close. -/
def skipComment : Nat → List Char → Option (List Char)
  | _, [] => none
  | depth, '/' :: '*' :: rest => skipComment (depth + 1) rest
  | 0, '*' :: '/' :: rest => some rest
  | depth + 1, '*' :: '/' :: rest => skipComment depth rest
  | depth, _ :: rest => skipComment depth rest

/-! ### Symbols -/

/-- The symbols of more than one character, no later one being the start of an earlier one. -/
def longSymbols : List String :=
  ["->>", "->", "||/", "||", "|/", "=>", "==", "!~~*", "!~~", "!~*", "!~", "!!", "<=>", "<=", "<<",
    "<@", ">=", ">>", "::", ":=", "&&", "^@", "~~*", "~~", "~*", "#>>", "#>", "#-", "@>", "@?",
    "//"]

def takeSymbol (cs : List Char) : Taken :=
  match longSymbols.find? fun s => s.toList.isPrefixOf cs with
  | some s => (some (.symbol s), cs.drop s.length)
  | none =>
    match cs with
    | '!' :: '=' :: rest => (some (.symbol "<>"), rest)
    | '<' :: '>' :: rest => (some (.symbol "<>"), rest)
    | c :: rest => (some (.symbol (String.ofList [c])), rest)
    | [] => (none, [])

/-- What a number sign starts. -/
def takeSharp (rest : List Char) : Taken :=
  match rest with
  | [] => (some (.symbol "#"), [])
  | c :: more =>
    if c = ' ' then (some (.symbol "#"), rest)
    else if c = '-' || c = '>' then takeSymbol ('#' :: rest)
    else takeWord ['#', c] more

/-- What an at sign starts. -/
def takeAt (rest : List Char) : Taken :=
  match rest with
  | [] => (some (.symbol "@"), [])
  | '@' :: [] => (some (.symbol "@@"), [])
  | '@' :: c :: more =>
    if c = ' ' then (some (.symbol "@@"), c :: more) else takeWord ['@', '@', c] more
  | c :: more =>
    if c = '>' || c = '?' then takeSymbol ('@' :: rest)
    else if c = ' ' || c = '\'' || c = '"' || c = '`' then (some (.symbol "@"), rest)
    else takeWord ['@', c] more

/-! ### Steps -/

/-- What a letter before a quote starts: a literal of a special kind, or else a word. -/
def takeLetter (c : Char) (rest : List Char) : Option Taken :=
  match rest with
  | '\'' :: body =>
    if c = 'b' || c = 'B' then takeConstant "B'" "'" (takeQuoted '\'' body)
    else if c = 'r' || c = 'R' then takeConstant "R'" "'" (takeRaw '\'' body)
    else if c = 'n' || c = 'N' then takeConstant "N'" "'" (takeQuoted '\'' body)
    else if c = 'x' || c = 'X' then takeConstant "X'" "'" (takeQuoted '\'' body)
    else if c = 'e' || c = 'E' then
      (takeEscaped body).map fun (s, rest) =>
        (some (.constant ("E'" ++ backslashed (String.ofList s) ++ "'")), rest)
    else some (takeWord [c] rest)
  | '"' :: body =>
    if c = 'b' || c = 'B' then takeConstant "B\"" "\"" (takeQuoted '"' body)
    else if c = 'r' || c = 'R' then takeConstant "R\"" "\"" (takeRaw '"' body)
    else some (takeWord [c] rest)
  | '&' :: '\'' :: body =>
    if c = 'u' || c = 'U' then takeConstant "U&'" "'" (takeQuoted '\'' body)
    else some (takeWord [c] rest)
  | _ => some (takeWord [c] rest)

/-- Takes what stands at the front of a text.  `afterWord` tells whether a word ends right there;
only then may a period be followed by an underscore. -/
def takeToken (afterWord : Bool) (c : Char) (rest : List Char) : Option Taken :=
  if c = '#' then some (takeSharp rest)
  else if c = '@' then some (takeAt rest)
  else if startsWord c then takeLetter c rest
  else if c = '\'' then
    (takeQuoted c rest).map fun (s, rest) => (some (.string (String.ofList s)), rest)
  else if c = '"' || c = '`' then
    (takeQuoted c rest).map fun (s, rest) =>
      (some (.word { value := String.ofList s, quote := some c }), rest)
  else if c = '.' && rest.head? = some '_' then
    if afterWord then some (some (.symbol "."), rest) else none
  else if isDigit c || c = '.' then some (takeNumber (c :: rest))
  else if c = '-' && rest.head? = some '-' then some (none, rest.dropWhile (· != '\n'))
  else if c = '/' && rest.head? = some '*' then
    (skipComment 0 rest.tail).map fun rest => (none, rest)
  else if c = '?' then
    some (some (.constant (String.ofList (c :: rest.takeWhile isDigit))), rest.dropWhile isDigit)
  else if c = '$' then takeDollar rest
  else if Text.isBlank c then some (none, rest)
  else some (takeSymbol (c :: rest))

def Taken.isWord : Taken → Bool
  | (some (.word _), _) => true
  | _ => false

/-- The tokens of a text, in at most `fuel` steps. -/
def scanSteps : Nat → Bool → List Char → Option (List Token)
  | _, _, [] => some []
  | 0, _, _ :: _ => none
  | fuel + 1, afterWord, c :: rest =>
    match takeToken afterWord c rest with
    | none => none
    | some taken => (scanSteps fuel taken.isWord taken.2).map (taken.1.toList ++ ·)

/-- The tokens of a text; every step takes at least one character. -/
def scan (s : String) : Option (List Token) :=
  scanSteps s.toList.length false s.toList

end FlatQuery.Sql
