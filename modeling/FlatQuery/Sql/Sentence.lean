import FlatQuery.Sql.Token
import FlatQuery.Text.Pieces

/-!
Sentences of SQL as a parser delivers them, part by part.  The parts that a query is made of have a
structure of their own; what is never looked into is kept as the text in which it is written out,
with its keywords: keywords in capitals, single blanks, commas followed by a blank.
-/

namespace FlatQuery.Sql

def commas (texts : List String) : String :=
  Text.joined ", " texts

/-- The parts of a name with periods between them. -/
def dotted (ids : List Ident) : String :=
  Text.joined "." (ids.map (·.text))

def spaced (text : Option String) : String :=
  text.elim "" (" " ++ ·)

/-! ### Expressions -/

/-- What a call says beyond its name and its arguments. -/
structure CallDetails where
  /-- Whether the call stands in braces, after the word `fn`. -/
  braced : Bool := false
  /-- Arguments in parentheses of their own, before the others. -/
  parameters : String := ""
  withinGroup : Option String := none
  filter : Option String := none
  /-- IGNORE NULLS or RESPECT NULLS. -/
  nulls : Option String := none
  window : Option String := none
  deriving DecidableEq, Repr, Inhabited

mutual

/-- An expression as it is read. -/
inductive Phrase where
  /-- A name. -/
  | name (id : Ident)
  /-- Names with periods between them. -/
  | path (ids : List Ident)
  | number (digits : String) (long : Bool)
  | string (s : String)
  /-- Any other literal. -/
  | constant (text : String)
  | binary (left : Phrase) (op : String) (right : Phrase)
  | negated (e : Phrase)
  | nested (e : Phrase)
  | call (name : List Ident) (args : CallArguments) (details : CallDetails)
  /-- A query between parentheses. -/
  | subquery (text : String)
  /-- Anything else. -/
  | other (text : String)

/-- What stands between the parentheses of a call. -/
inductive CallArguments where
  /-- No parentheses. -/
  | absent
  | query (text : String)
  /-- Arguments after ALL or DISTINCT and before clauses. -/
  | list (quantifier : Option String) (args : List CallArgument) (clauses : List String)

inductive CallArgument where
  | expr (e : Phrase)
  | star
  /-- A named argument, or the star of a table. -/
  | other (text : String)

end

instance : Inhabited Phrase := ⟨.other ""⟩

/-- What is written before a call. -/
def CallDetails.front (d : CallDetails) : String :=
  if d.braced then "\x7bfn " else ""

def CallDetails.tail (d : CallDetails) : String :=
  spaced d.withinGroup ++ spaced d.filter ++ spaced d.nulls ++ spaced d.window ++
    (if d.braced then "\x7d" else "")

mutual

/-- The expression as it is written out. -/
def Phrase.text : Phrase → String
  | .name id => id.text
  | .path ids => dotted ids
  | .number digits long => digits ++ (if long then "L" else "")
  | .string s => quoted '\'' s
  | .constant text => text
  | .binary l op r => l.text ++ " " ++ op ++ " " ++ r.text
  | .negated e => "-" ++ e.text
  | .nested e => "(" ++ e.text ++ ")"
  | .call name args details =>
    details.front ++ dotted name ++ details.parameters ++ args.text ++ details.tail
  | .subquery text => "(" ++ text ++ ")"
  | .other text => text

def CallArguments.text : CallArguments → String
  | .absent => ""
  | .query text => "(" ++ text ++ ")"
  | .list quantifier args clauses =>
    "(" ++ quantifier.elim "" (· ++ " ") ++ callArgumentsText args ++
      String.join (clauses.map (" " ++ ·)) ++ ")"

def callArgumentsText : List CallArgument → String
  | [] => ""
  | [a] => a.text
  | a :: rest => a.text ++ ", " ++ callArgumentsText rest

def CallArgument.text : CallArgument → String
  | .expr e => e.text
  | .star => "*"
  | .other text => text

end

/-! ### Sources -/

/-- What is said about a table besides its name and its alias. -/
structure TableDetails where
  /-- Steps into a document, right after the name. -/
  documentPath : Option String := none
  partitions : Option String := none
  /-- Arguments between parentheses. -/
  args : Option String := none
  withOrdinality : Bool := false
  /-- What part of the table is taken, if that is said before the alias. -/
  sampleBefore : Option String := none
  indexHints : List String := []
  hints : Option String := none
  version : Option String := none
  /-- What part of the table is taken, if that is said after the alias. -/
  sampleAfter : Option String := none
  deriving DecidableEq, Repr, Inhabited

def TableDetails.front (d : TableDetails) : String :=
  d.documentPath.getD "" ++ d.partitions.getD "" ++ d.args.getD "" ++
    (if d.withOrdinality then " WITH ORDINALITY" else "") ++ spaced d.sampleBefore

/-- What is written after the alias. -/
def TableDetails.tail (d : TableDetails) : String :=
  String.join (d.indexHints.map (" " ++ ·)) ++ spaced d.hints ++ spaced d.version ++
    spaced d.sampleAfter

/-- What a source of rows starts with. -/
inductive SourceHead where
  | table (name : List Ident) (details : TableDetails)
  /-- Joined tables between parentheses. -/
  | joined (text : String)
  /-- A subquery, a function or a rearranged source; `tail` follows the alias. -/
  | other (text : String) (tail : String)
  deriving DecidableEq, Repr, Inhabited

/-- A source of rows, with its alias. -/
structure Factor where
  head : SourceHead
  aliasName : Option String := none
  deriving DecidableEq, Repr, Inhabited

/-- What is written before the alias. -/
def SourceHead.front : SourceHead → String
  | table name details => dotted name ++ details.front
  | joined text => "(" ++ text ++ ")"
  | other text _ => text

def SourceHead.tail : SourceHead → String
  | table _ details => details.tail
  | joined _ => ""
  | other _ tail => tail

def Factor.text (f : Factor) : String :=
  f.head.front ++ f.aliasName.elim "" (" AS " ++ ·) ++ f.head.tail

/-- A source and the joins after it, each as it is written out. -/
structure Joined where
  first : Factor
  joins : List String := []
  deriving DecidableEq, Repr, Inhabited

def Joined.text (j : Joined) : String :=
  j.first.text ++ String.join (j.joins.map (" " ++ ·))

/-! ### Queries -/

/-- What is said about the columns that a star stands for. -/
structure StarOptions where
  ilike : Option String := none
  exclude : Option String := none
  except : Option String := none
  replace : Option String := none
  rename : Option String := none
  deriving DecidableEq, Repr, Inhabited

def StarOptions.text (o : StarOptions) : String :=
  spaced o.ilike ++ spaced o.exclude ++ spaced o.except ++ spaced o.replace ++ spaced o.rename

inductive Item where
  | star (options : StarOptions)
  /-- A star after a qualifier and a period. -/
  | tableStar (qualifier : String) (options : StarOptions)
  | expr (e : Phrase)
  | aliased (e : Phrase) (aliasName : Ident)
  deriving Inhabited

def Item.text : Item → String
  | star options => "*" ++ options.text
  | tableStar qualifier options => qualifier ++ ".*" ++ options.text
  | expr e => e.text
  | aliased e aliasName => e.text ++ " AS " ++ aliasName.text

/-- What is said about repeated rows. -/
inductive Repeats where
  | kept
  | dropped
  | droppedOn (keys : List String)
  deriving DecidableEq, Repr, Inhabited

/-- What is grouped by. -/
inductive Grouping where
  | all (modifiers : List String)
  | exprs (es : List Phrase) (modifiers : List String)
  deriving Inhabited

/-- The grouping as it is written out; nothing without expressions. -/
def Grouping.text? : Grouping → Option String
  | all modifiers => some (Text.joined " " ("GROUP BY ALL" :: modifiers))
  | exprs [] _ => none
  | exprs es modifiers =>
    some (Text.joined " " (("GROUP BY " ++ commas (es.map (·.text))) :: modifiers))

/-- Where the FROM list stands: after the SELECT list, before it, or without one. -/
inductive FromPlace where
  | after
  | before
  | alone
  deriving DecidableEq, Repr, Inhabited

/-- A SELECT as it is read. -/
structure SelectSentence where
  place : FromPlace := .after
  /-- AS VALUE or AS STRUCT. -/
  valueMode : Option String := none
  repeats : Repeats := .kept
  top : Option String := none
  /-- Whether TOP stands before what is said about repeated rows. -/
  topFirst : Bool := false
  items : List Item := []
  into : Option String := none
  sources : List Joined := []
  lateralViews : List String := []
  prewhere : Option String := none
  condition : Option Phrase := none
  grouping : Grouping := .exprs [] []
  clusterBy : Option String := none
  distributeBy : Option String := none
  sortBy : Option String := none
  having : Option Phrase := none
  windows : Option String := none
  qualify : Option String := none
  /-- Whether WINDOW stands before QUALIFY. -/
  windowsFirst : Bool := false
  connectBy : Option String := none
  deriving Inhabited

/-- The word DISTINCT and what follows it. -/
def Repeats.text? : Repeats → Option String
  | kept => none
  | dropped => some "DISTINCT"
  | droppedOn keys => some ("DISTINCT ON (" ++ commas keys ++ ")")

namespace SelectSentence

def lead (s : SelectSentence) : String :=
  let sources := "FROM " ++ commas (s.sources.map (·.text))
  match s.place with
  | .after => "SELECT"
  | .before => sources ++ " SELECT"
  | .alone => sources

/-- The FROM list, if it stands after the SELECT list. -/
def from? (s : SelectSentence) : Option String :=
  if s.place = .after && !s.sources.isEmpty then
    some ("FROM " ++ commas (s.sources.map (·.text)))
  else none

/-- DISTINCT and TOP, in the order in which they are written. -/
def limits (s : SelectSentence) : List String :=
  if s.topFirst then s.top.toList ++ s.repeats.text?.toList
  else s.repeats.text?.toList ++ s.top.toList

/-- WINDOW and QUALIFY, in the order in which they are written. -/
def windowClauses (s : SelectSentence) : List String :=
  if s.windowsFirst then s.windows.toList ++ s.qualify.toList
  else s.qualify.toList ++ s.windows.toList

def text (s : SelectSentence) : String :=
  Text.joined " " ([s.lead] ++ s.valueMode.toList ++ s.limits ++
    (if s.items.isEmpty then [] else [commas (s.items.map (·.text))]) ++ s.into.toList ++
    s.from?.toList ++ s.lateralViews ++ s.prewhere.toList ++
    (s.condition.map ("WHERE " ++ ·.text)).toList ++ s.grouping.text?.toList ++
    s.clusterBy.toList ++ s.distributeBy.toList ++ s.sortBy.toList ++
    (s.having.map ("HAVING " ++ ·.text)).toList ++ s.windowClauses ++ s.connectBy.toList)

end SelectSentence

/-- The body of a query: a SELECT, or anything else. -/
inductive Body where
  | select (s : SelectSentence)
  | other (text : String)
  deriving Inhabited

def Body.text : Body → String
  | select s => s.text
  | other text => text

/-- A direction and a place for nulls, as far as they are said. -/
structure SortOptions where
  ascending : Option Bool := none
  nullsFirst : Option Bool := none
  deriving DecidableEq, Repr, Inhabited

def SortOptions.text (o : SortOptions) : String :=
  o.ascending.elim "" (fun a => if a then " ASC" else " DESC") ++
    o.nullsFirst.elim "" (fun f => if f then " NULLS FIRST" else " NULLS LAST")

structure SortItem where
  expr : Phrase
  options : SortOptions := {}
  /-- Values to be put in between. -/
  fill : Option String := none
  deriving Inhabited

def SortItem.text (o : SortItem) : String :=
  o.expr.text ++ o.options.text ++ spaced o.fill

/-- What is sorted by. -/
inductive SortKeys where
  | all (options : SortOptions)
  | items (items : List SortItem)
  deriving Inhabited

/-- The keys as they are written out; nothing without keys. -/
def SortKeys.text? : SortKeys → Option String
  | all options => some ("ORDER BY ALL" ++ options.text)
  | items [] => none
  | items keys => some ("ORDER BY " ++ commas (keys.map (·.text)))

/-- A query as it is read. -/
structure QuerySentence where
  withClause : Option String := none
  body : Body
  orderBy : SortKeys := .items []
  interpolate : Option String := none
  limit : Option String := none
  offset : Option String := none
  limitBy : Option String := none
  settings : Option String := none
  fetch : Option String := none
  locks : List String := []
  /-- FOR XML, FOR JSON or FOR BROWSE. -/
  shape : Option String := none
  format : Option String := none
  deriving Inhabited

def QuerySentence.text (q : QuerySentence) : String :=
  Text.joined " " (q.withClause.toList ++ [q.body.text] ++ q.orderBy.text?.toList ++
    q.interpolate.toList ++ q.limit.toList ++ q.offset.toList ++ q.limitBy.toList ++
    q.settings.toList ++ q.fetch.toList ++ q.locks ++ q.shape.toList ++ q.format.toList)

/-- A statement: a query, or anything else. -/
inductive Sentence where
  | query (q : QuerySentence)
  | other (text : String)
  deriving Inhabited

def Sentence.text : Sentence → String
  | query q => q.text
  | other text => text

end FlatQuery.Sql
