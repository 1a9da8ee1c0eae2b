import FlatQuery.Sql.Sentence

/-!
Reading tokens from left to right.  A reader may fail because the tokens do not fit, and then
another may be tried; or because expressions and queries are nested too deeply, which ends it all.
-/

namespace FlatQuery.Sql

/-- Why reading failed. -/
inductive Fault where
  | unexpected
  | tooDeep
  deriving DecidableEq, Repr, Inhabited

/-- A reader: it knows how deep it may still go, and takes tokens off a list. -/
abbrev Reader (α : Type) := ReaderT Nat (StateT (List Token) (Except Fault)) α

namespace Reader

variable {α : Type}

def unexpected : Reader α := throw .unexpected

/-- Runs a reader one level deeper. -/
def deeper (r : Reader α) : Reader α := fun depth =>
  match depth with
  | 0 => throw .tooDeep
  | depth + 1 => r depth

/-- Runs a reader; if it fails, no token is taken. -/
def attempt (r : Reader α) : Reader (Option α) := fun depth tokens =>
  match r depth tokens with
  | .ok (a, rest) => .ok (some a, rest)
  | .error .unexpected => .ok (none, tokens)
  | .error .tooDeep => .error .tooDeep

/-- The tokens to come, none of which is taken. -/
def upcoming : Reader (List Token) := fun _ tokens => .ok (tokens, tokens)

/-- The next token, which is not taken. -/
def peek : Reader (Option Token) := do
  return (← upcoming).head?

def next : Reader Token := fun _ tokens =>
  match tokens with
  | [] => .error .unexpected
  | t :: rest => .ok (t, rest)

/-- Whether the next token is one of given keywords. -/
def seesAny (keywords : List String) : Reader Bool := do
  return ((← peek).bind (·.keyword?)).any keywords.contains

def sees (keyword : String) : Reader Bool :=
  seesAny [keyword]

def seesMark (mark : String) : Reader Bool := do
  return (← peek) == some (.symbol mark)

/-- Whether a keyword follows, and an opening parenthesis after it. -/
def seesBefore (keyword : String) : Reader Bool := do
  match ← upcoming with
  | t :: .symbol "(" :: _ => return t.isKeyword keyword
  | _ => return false

def keywords (ks : List String) : Reader Bool := do
  let tokens ← upcoming
  if (tokens.take ks.length).map (·.keyword?) == ks.map some then
    set (tokens.drop ks.length)
    return true
  else return false

/-- Takes a keyword if it follows. -/
def keyword (k : String) : Reader Bool := do
  if ← sees k then
    let _ ← next
    return true
  else return false

def oneOf (ks : List String) : Reader (Option String) := do
  match ((← peek).bind (·.keyword?)).filter ks.contains with
  | some k =>
    let _ ← next
    return some k
  | none => return none

/-- Takes a symbol if it follows. -/
def mark (m : String) : Reader Bool := do
  if ← seesMark m then
    let _ ← next
    return true
  else return false

def marks (ms : List String) : Reader Bool := do
  let tokens ← upcoming
  if tokens.take ms.length == ms.map Token.symbol then
    set (tokens.drop ms.length)
    return true
  else return false

/-- Takes a keyword, which must follow. -/
def needKeyword (k : String) : Reader Unit := do
  unless ← keyword k do unexpected

def needKeywords (ks : List String) : Reader Unit := do
  unless ← keywords ks do unexpected

def needOneOf (ks : List String) : Reader String := do
  match ← oneOf ks with
  | some k => return k
  | none => unexpected

def needMark (m : String) : Reader Unit := do
  unless ← mark m do unexpected

/-- Takes one of several runs of keywords if one follows, and answers what it stands for. -/
def oneRunFor : List (List String × α) → Reader (Option α)
  | [] => return none
  | (run, a) :: rest => do
    if ← keywords run then return some a else oneRunFor rest

/-- Takes one of several runs of keywords if one follows, and answers how it is written out. -/
def oneRunOf (runs : List (List String)) : Reader (Option String) :=
  oneRunFor (runs.map fun run => (run, Text.joined " " run))

/-- Takes keywords if they follow, and then reads on. -/
def after (ks : List String) (r : Reader α) : Reader (Option α) := do
  if ← keywords ks then return some (← r) else return none

/-- Takes keywords if they follow, and then reads a text, which is written out after them. -/
def clause (ks : List String) (r : Reader String) : Reader (Option String) :=
  after ks do return Text.joined " " (ks ++ [← r])

/-- Runs a reader; if it fails, no token is taken and another runs. -/
def orElse (r : Reader α) (other : Fault → Reader α) : Reader α := fun depth tokens =>
  match r depth tokens with
  | .ok answer => .ok answer
  | .error fault => other fault depth tokens

/-- Repeats a reader as long as it answers, at most `fuel` times. -/
def repeated (r : Reader (Option α)) : Nat → Reader (List α)
  | 0 => return []
  | fuel + 1 => do
    match ← r with
    | none => return []
    | some a => return a :: (← repeated r fuel)

/-- Repeats a reader as long as it answers; every answer must take a token. -/
def many (r : Reader (Option α)) : Reader (List α) := do
  repeated r (← upcoming).length

/-- One or more with commas between them, at most `fuel`. -/
def listed (r : Reader α) : Nat → Reader (List α)
  | 0 => unexpected
  | fuel + 1 => do
    let a ← r
    if ← mark "," then return a :: (← listed r fuel) else return [a]

/-- One or more with commas between them. -/
def commaList (r : Reader α) : Reader (List α) := do
  listed r ((← upcoming).length + 1)

def parenthesised (r : Reader α) : Reader α := do
  needMark "("
  let a ← r
  needMark ")"
  return a

/-- A name: a word, or a string that is taken for one. -/
def ident : Reader Ident := do
  match ← next with
  | .word id => return id
  | .string s => return { value := s, quote := some '\'' }
  | _ => unexpected

/-- Further parts of a name, each after a period. -/
def nameParts : Nat → Reader (List Ident)
  | 0 => unexpected
  | fuel + 1 => do
    let id ← ident
    if ← mark "." then return id :: (← nameParts fuel) else return [id]

def name : Reader (List Ident) := do
  nameParts ((← upcoming).length + 1)

end Reader

end FlatQuery.Sql
