import FlatQuery.Proofs.Sql.Meaning

/-!
# Clauses that are overlooked

Some of what a query may say beyond a plain SELECT is refused, and a source with an alias or a join
is carried as text.  The rest, from TOP and CONNECT BY to the DISTINCT of a call, is read and then
dropped without a word: `QuerySentence.bare` is the query without it, and means the same
(`QuerySentence.meaning_bare`).
-/

namespace FlatQuery.Sql

open Outcome

/-! ### Bare queries -/

mutual

/-- The expression without what its calls say beyond their names and arguments.  Where a sign
stands before more than a number the expression is refused with its text, so it is left alone. -/
def Phrase.bare : Phrase → Phrase
  | .name id => .name id
  | .path ids => .path ids
  | .number digits long => .number digits long
  | .string s => .string s
  | .constant text => .constant text
  | .binary l op r => .binary l.bare op r.bare
  | .negated e => .negated e
  | .nested e => .nested e.bare
  | .call name args _ => .call name args.bare {}
  | .subquery text => .subquery text
  | .other text => .other text

/-- The arguments without ALL or DISTINCT before them and clauses after them. -/
def CallArguments.bare : CallArguments → CallArguments
  | .absent => .absent
  | .query text => .query text
  | .list _ args _ => .list none (bareCallArguments args) []

def bareCallArguments : List CallArgument → List CallArgument
  | [] => []
  | a :: rest => a.bare :: bareCallArguments rest

def CallArgument.bare : CallArgument → CallArgument
  | .expr e => .expr e.bare
  | .star => .star
  | .other text => .other text

end

/-- A table without its schema and what is said about it; what is carried as text is left alone. -/
def Joined.bare (j : Joined) : Joined :=
  match j.joins, j.first.aliasName, j.first.head with
  | [], none, .table name _ => { first := { head := .table name.getLast?.toList {} } }
  | _, _, _ => j

/-- The item without what is said about a star. -/
def Item.bare : Item → Item
  | star _ => star {}
  | tableStar qualifier _ => tableStar qualifier {}
  | expr e => expr e.bare
  | aliased e aliasName => aliased e aliasName

def Grouping.bare : Grouping → Grouping
  | all modifiers => all modifiers
  | exprs es _ => exprs (es.map (·.bare)) []

def SortItem.bare (o : SortItem) : SortItem :=
  { expr := o.expr.bare, options := { ascending := o.options.ascending } }

def SortKeys.bare : SortKeys → SortKeys
  | all options => all options
  | items keys => items (keys.map (·.bare))

/-- The SELECT without its overlooked clauses, the FROM list in its usual place. -/
def SelectSentence.bare (s : SelectSentence) : SelectSentence where
  repeats := s.repeats
  items := s.items.map (·.bare)
  sources := s.sources.map (·.bare)
  condition := s.condition.map (·.bare)
  grouping := s.grouping.bare
  having := s.having

def Body.bare : Body → Body
  | select s => select s.bare
  | other text => other text

/-- The query without its overlooked clauses. -/
def QuerySentence.bare (q : QuerySentence) : QuerySentence where
  withClause := q.withClause
  body := q.body.bare
  orderBy := q.orderBy.bare
  limit := q.limit
  offset := q.offset

/-! ### Bare queries mean the same -/

mutual

theorem Phrase.meaning_bare : ∀ p : Phrase, p.bare.meaning = p.meaning
  | .name id => rfl
  | .path ids => rfl
  | .number digits long => rfl
  | .string s => rfl
  | .constant text => rfl
  | .binary l op r => by
    rw [Phrase.bare, Phrase.meaning, Phrase.meaning, l.meaning_bare, r.meaning_bare]
  | .negated e => rfl
  | .nested e => by rw [Phrase.bare, Phrase.meaning, Phrase.meaning, e.meaning_bare]
  | .call name args details => by
    rw [Phrase.bare, Phrase.meaning, Phrase.meaning, args.meaning_bare]
  | .subquery text => rfl
  | .other text => rfl

theorem CallArguments.meaning_bare : ∀ args : CallArguments, args.bare.meaning = args.meaning
  | .absent => rfl
  | .query text => rfl
  | .list quantifier args clauses => by
    rw [CallArguments.bare, CallArguments.meaning, CallArguments.meaning,
      callArgumentsMeaning_bare args]

theorem callArgumentsMeaning_bare :
    ∀ args, callArgumentsMeaning (bareCallArguments args) = callArgumentsMeaning args
  | [] => rfl
  | a :: rest => by
    rw [bareCallArguments, callArgumentsMeaning, callArgumentsMeaning, a.meaning_bare,
      callArgumentsMeaning_bare rest]

theorem CallArgument.meaning_bare : ∀ a : CallArgument, a.bare.meaning = a.meaning
  | .expr e => by rw [CallArgument.bare, CallArgument.meaning, CallArgument.meaning, e.meaning_bare]
  | .star => rfl
  | .other text => rfl

end

theorem Joined.meaning_bare (j : Joined) : j.bare.meaning = j.meaning := by
  obtain ⟨⟨head, aliasName⟩, joins⟩ := j
  cases joins with
  | cons join joins => rfl
  | nil =>
    cases aliasName with
    | some aliasName => cases head <;> rfl
    | none =>
      cases head with
      | joined text => rfl
      | other text tail => rfl
      | table name details =>
        have last : name.getLast?.toList.getLast? = name.getLast? := by
          cases name.getLast? <;> rfl
        simp only [Joined.bare, Joined.meaning, List.isEmpty_nil, if_true, last]

theorem Item.meaning_bare (i : Item) : i.bare.meaning = i.meaning := by
  cases i with
  | star options => rfl
  | tableStar table options => rfl
  | expr e => rw [Item.bare, Item.meaning, Item.meaning, e.meaning_bare]
  | aliased e aliasName => rfl

theorem Grouping.meaning_bare (g : Grouping) : g.bare.meaning = g.meaning := by
  cases g with
  | all modifiers => rfl
  | exprs es modifiers => exact mapM_map_of_eq Phrase.meaning_bare es

theorem SortItem.meaning_bare (o : SortItem) : o.bare.meaning = o.meaning := by
  rw [SortItem.meaning, SortItem.meaning, SortItem.bare, o.expr.meaning_bare]

theorem SortKeys.meaning_bare (k : SortKeys) : k.bare.meaning = k.meaning := by
  cases k with
  | all options => rfl
  | items keys => exact mapM_map_of_eq SortItem.meaning_bare keys

theorem QuerySentence.meaning_bare (q : QuerySentence) : q.bare.meaning = q.meaning := by
  rw [QuerySentence.meaning, QuerySentence.meaning, QuerySentence.bare]
  cases q.body with
  | other text => rfl
  | select s =>
    have condition : (s.condition.map (·.bare)).mapM (·.meaning) =
        s.condition.mapM (·.meaning) := by
      cases s.condition with
      | none => rfl
      | some e => simp only [Option.map_some, Option.mapM_some, e.meaning_bare]
    simp only [Body.bare, SelectSentence.bare, condition, mapM_map_of_eq Joined.meaning_bare,
      mapM_map_of_eq Item.meaning_bare, SortKeys.meaning_bare, Grouping.meaning_bare]

end FlatQuery.Sql
