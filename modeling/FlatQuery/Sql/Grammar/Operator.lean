import FlatQuery.Sql.Grammar.DataType

/-!
Operators that stand after an expression.  Each has a strength: the stronger one binds first, and
of two of one strength the left one.
-/

namespace FlatQuery.Sql.Grammar

open Reader

/-! ### Strengths -/

def symbolStrengths : List (Nat × List String) :=
  [(50, ["::", "[", "!", "^@"]),
    (40, ["*", "/", "%", "||", "//"]),
    (30, ["+", "-"]),
    (23, ["&"]),
    (22, ["^", "#", "<<", ">>"]),
    (21, ["|", "&&"]),
    (20, ["=", "==", "<>", "<", "<=", ">", ">=", "<=>", "~", "~*", "!~", "!~*", "~~", "~~*", "!~~",
      "!~~*"]),
    (16, ["->", "->>", "#>", "#>>", "@>", "<@", "#-", "@?", "@@"])]

def keywordStrengths : List (Nat × List String) :=
  [(40, ["DIV"]),
    (24, ["XOR"]),
    (20, ["IN", "BETWEEN", "OVERLAPS", "OPERATOR"]),
    (19, ["LIKE", "ILIKE", "RLIKE", "REGEXP", "SIMILAR"]),
    (17, ["IS"]),
    (10, ["AND"]),
    (5, ["OR"])]

/-- The strength that a table gives a text, if it does. -/
def strengthIn (table : List (Nat × List String)) (text : String) : Option Nat :=
  (table.find? (·.2.contains text)).map (·.1)

/-- The keywords that NOT may stand before, as an operator. -/
def negatable : List String :=
  ["IN", "BETWEEN", "LIKE", "ILIKE", "RLIKE", "REGEXP", "SIMILAR"]

/-- The strength of the operator at the front of tokens; zero if there is none. -/
def strength : List Token → Nat
  | .symbol s :: _ => (strengthIn symbolStrengths s).getD 0
  | t :: rest =>
    match t.keyword? with
    | some "NOT" =>
      (((rest.head?.bind (·.keyword?)).filter negatable.contains).bind
        (strengthIn keywordStrengths)).getD 0
    | some "AT" => if (rest.take 2).map (·.keyword?) == [some "TIME", some "ZONE"] then 41 else 0
    | some k => (strengthIn keywordStrengths k).getD 0
    | none => 0
  | [] => 0

/-! ### Binary operations -/

/-- The symbols that have a strength but stand between no two operands. -/
def notBinary : List String :=
  ["::", "[", "!", "#"]

/-- How the symbol of a binary operation is written out. -/
def binarySymbol? (s : String) : Option String :=
  if notBinary.contains s then none
  else if s = "==" then some "="
  else (strengthIn symbolStrengths s).map fun _ => s

/-- The comparisons that ANY and ALL may follow. -/
def quantifiable : List String :=
  ["=", "<>", "<", "<=", ">", ">="]

/-- What follows the symbol of a binary operation. -/
def binaryAfter (l : Level) (left : Phrase) (op : String) (strength : Nat) : Reader Phrase := do
  match ← oneOf ["ANY", "ALL", "SOME"] with
  | none => return .binary left op (← l.phrase strength)
  | some word =>
    let right ←
      if isQuery ((← upcoming).take 2) then l.phrase strength
      else parenthesised (l.phrase strength)
    unless quantifiable.contains op do unexpected
    let operand := match right with
      | .subquery text => "(" ++ text ++ ")"
      | e => "(" ++ e.text ++ ")"
    return .other (left.text ++ " " ++ op ++ " " ++ word ++ operand)
where
  /-- Whether tokens open a query. -/
  isQuery : List Token → Bool
    | [.symbol "(", t] => t.isKeyword "SELECT" || t.isKeyword "WITH"
    | _ => false

def namedOperator : Reader String := do
  needMark "("
  let first ← part
  let rest ← many do if ← mark "." then some <$> part else return none
  needMark ")"
  return "OPERATOR(" ++ Text.joined "." (first :: rest) ++ ")"
where
  /-- A part of the name. -/
  part : Reader String := do
    match ← next with
    | .symbol s => return s
    | .word id => return id.text
    | _ => unexpected

/-! ### Tests -/

/-- What IS may be followed by, besides a comparison. -/
def isTests : List (List String) :=
  [["NULL"], ["NOT", "NULL"], ["TRUE"], ["NOT", "TRUE"], ["FALSE"], ["NOT", "FALSE"], ["UNKNOWN"],
    ["NOT", "UNKNOWN"]]

def isAfter (l : Level) : Reader String := do
  match ← oneRunOf isTests with
  | some test => return test
  | none =>
    match ← oneRunOf [["DISTINCT", "FROM"], ["NOT", "DISTINCT", "FROM"]] with
    | some link => return link ++ " " ++ (← l.exprText)
    | none => unexpected

def inAfter (l : Level) : Reader String := do
  if ← keyword "UNNEST" then return "UNNEST(" ++ (← parenthesised l.exprText) ++ ")"
  needMark "("
  let text ← if ← seesAny ["SELECT", "WITH"] then l.queryText else l.exprsText
  needMark ")"
  return "(" ++ text ++ ")"

/-- The character that ends the special meaning of the next one, if it is given. -/
def escapeAfter : Reader String := do
  if ← keyword "ESCAPE" then return " ESCAPE '" ++ (← ident).value ++ "'" else return ""

def likeAfter (l : Level) : Reader String := do
  let any ← keyword "ANY"
  let pattern ← l.phrase 19
  return (if any then "ANY " else "") ++ pattern.text ++ (← escapeAfter)

/-- A test whose keyword NOT may stand before. -/
def testOf (l : Level) : Reader String := do
  match ← needOneOf negatable with
  | "IN" => return "IN " ++ (← inAfter l)
  | "BETWEEN" =>
    let low ← l.phrase 20
    needKeyword "AND"
    let high ← l.phrase 20
    return "BETWEEN " ++ low.text ++ " AND " ++ high.text
  | "SIMILAR" =>
    needKeyword "TO"
    let pattern ← l.phrase 19
    return "SIMILAR TO " ++ pattern.text ++ (← escapeAfter)
  | "LIKE" => return "LIKE " ++ (← likeAfter l)
  | "ILIKE" => return "ILIKE " ++ (← likeAfter l)
  | word => return word ++ " " ++ (← l.phrase 19).text

/-! ### Operators -/

/-- The expression that starts with `left` and goes on with the operator that follows, which has a
given strength. -/
def extended (l : Level) (left : Phrase) (strength : Nat) : Reader Phrase := do
  if ← seesAny ("NOT" :: negatable) then
    let negation := if ← keyword "NOT" then "NOT " else ""
    return .other (left.text ++ " " ++ negation ++ (← testOf l))
  match ← next with
  | .symbol "::" => return .other (left.text ++ "::" ++ (← dataType))
  | .symbol s =>
    match binarySymbol? s with
    | some op => binaryAfter l left op strength
    | none => unexpected
  | t =>
    match t.keyword? with
    | some "AND" => binaryAfter l left "AND" strength
    | some "OR" => binaryAfter l left "OR" strength
    | some "XOR" => binaryAfter l left "XOR" strength
    | some "OVERLAPS" => binaryAfter l left "OVERLAPS" strength
    | some "OPERATOR" => binaryAfter l left (← namedOperator) strength
    | some "IS" => return .other (left.text ++ " IS " ++ (← isAfter l))
    | some "AT" =>
      needKeywords ["TIME", "ZONE"]
      return .other (left.text ++ " AT TIME ZONE " ++ (← l.phrase strength).text)
    | _ => unexpected

end FlatQuery.Sql.Grammar
