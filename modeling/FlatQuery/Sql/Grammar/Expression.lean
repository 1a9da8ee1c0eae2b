import FlatQuery.Sql.Grammar.Special
import FlatQuery.Sql.Grammar.Operator

/-!
Expressions: operands, the parts that belong to one, and the operators between them.
-/

namespace FlatQuery.Sql.Grammar

open Reader

/-! ### Operands -/

def typedValue : Reader Phrase := do
  let type ← knownType
  return .other (type ++ " " ++ (← valueText))

/-- What a word starts that has no meaning of its own. -/
def wordOperand (l : Level) (id : Ident) : Reader Phrase := do
  match ← peek with
  | some (.symbol "(") => call l [id]
  | some (.string s) =>
    if id.value.startsWith "_" then
      let _ ← next
      return .other (id.text ++ " " ++ quoted '\'' s)
    else return .name id
  | _ => return .name id

/-- What a word starts.  A keyword is taken for a name if what it starts cannot be read. -/
def word (l : Level) (operand : Reader Phrase) (id : Ident) : Reader Phrase := do
  match (Token.word id).keyword? with
  | none => wordOperand l id
  | some k =>
    match special? l operand id (← peek) k with
    | none => wordOperand l id
    | some r =>
      orElse r fun fault =>
        if neverNames.contains k then throw fault
        else orElse (wordOperand l id) fun _ => throw fault

/-- What an opening parenthesis starts. -/
def inParentheses (l : Level) : Reader Phrase := do
  if ← seesAny ["SELECT", "WITH"] then
    let text ← l.queryText
    needMark ")"
    return .subquery text
  let es ← l.exprs
  needMark ")"
  match es with
  | [e] => return .nested e
  | _ => return .other ("(" ++ commas (es.map (·.text)) ++ ")")

/-- An operand.  `inner` reads the operand of INTERVAL. -/
def operandWith (l : Level) (inner : Reader Phrase) : Reader Phrase := do
  match ← attempt typedValue with
  | some e => return e
  | none =>
    let e ← plain
    if ← keyword "COLLATE" then return .other (e.text ++ " COLLATE " ++ (← nameText))
    else return e
where
  /-- An operand without COLLATE. -/
  plain : Reader Phrase := do
    match ← peek with
    | some (.word id) =>
      let _ ← next
      word l inner id
    | some (.symbol "[") =>
      let _ ← next
      arrayOf l ""
    | some (.symbol "-") =>
      let _ ← next
      return .negated (← l.phrase 40)
    | some (.symbol "+") =>
      let _ ← next
      return .other ("+" ++ (← l.phrase 40).text)
    | some (.symbol "(") =>
      let _ ← next
      inParentheses l
    | some (.symbol "\x7b") =>
      let _ ← next
      inBraces l
    | _ => value

/-- An operand; after INTERVAL another may follow, at most `fuel` times. -/
def operand (l : Level) : Nat → Reader Phrase
  | 0 => unexpected
  | fuel + 1 => operandWith l (operand l fuel)

/-! ### Parts of an operand -/

/-- A part of an operand: after a period or between brackets. -/
inductive Part where
  | member (e : Phrase)
  | index (text : String)
  deriving Inhabited

def Part.text : Part → String
  | member e => "." ++ e.text
  | index text => "[" ++ text ++ "]"

/-- What stands between brackets: an index, or the bounds of a stretch. -/
def indexText (l : Level) : Reader String := do
  let low ← if ← seesMark ":" then pure "" else l.exprText
  if ← mark ":" then
    let high ← if ← seesMark "]" then pure "" else l.exprText
    return low ++ ":" ++ high
  else return low

/-- The next part of an operand, if there is one.  A path after the period gives all its names. -/
def part (l : Level) : Reader (Option (List Part)) := do
  match ← upcoming with
  | .symbol "." :: .symbol "*" :: _ => return none
  | .symbol "." :: .string s :: rest =>
    set rest
    return some [.member (.name { value := s, quote := some '\'' })]
  | .symbol "." :: rest =>
    set rest
    match ← l.phrase 100 with
    | .path ids => return some (ids.map (.member ∘ .name))
    | e => return some [.member e]
  | .symbol "[" :: rest =>
    set rest
    let text ← indexText l
    needMark "]"
    return some [.index text]
  | _ => return none

def namesOf? (parts : List Part) : Option (List Ident) :=
  parts.mapM fun
    | .member (.name id) => some id
    | _ => none

/-- An operand with its parts: a path of names, a call of a function in a schema, or anything
else. -/
def assembled (root : Phrase) (parts : List Part) : Phrase :=
  let other := Phrase.other (root.text ++ String.join (parts.map (·.text)))
  match root, parts.getLast? with
  | _, none => root
  | .name id, some last =>
    match namesOf? parts, namesOf? parts.dropLast, last with
    | some ids, _, _ => .path (id :: ids)
    | none, some ids, .member (.call name args details) => .call (id :: ids ++ name) args details
    | _, _, _ => other
  | _, some _ => other

/-! ### Expressions -/

/-- Goes on with operators that are stronger than a given strength, at most `fuel` of them. -/
def operators (l : Level) (least : Nat) : Nat → Phrase → Reader Phrase
  | 0, e => return e
  | fuel + 1, e => do
    let s := strength (← upcoming)
    if least < s then operators l least fuel (← extended l e s) else return e

/-- An expression up to an operator that is no stronger than a given strength. -/
def phrase (l : Level) (least : Nat) : Reader Phrase :=
  deeper do
    let root ← operand l (← upcoming).length
    let e := assembled root (← many (part l)).flatten
    operators l least (← upcoming).length e

end FlatQuery.Sql.Grammar
