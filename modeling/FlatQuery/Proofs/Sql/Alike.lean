import FlatQuery.Proofs.Sql.Overlooked
import FlatQuery.Sql.Grammar.Sentences

/-!
# Queries that mean the same

Two queries are `Alike` if they differ in spelling only: in the quotes around names, the digits of
an integer, an ASC that may be left out, the parentheses of a call without arguments.  Queries that
are alike mean the same (`QuerySentence.Alike.meaning_eq`), and two that mean the same SELECT are
alike but for the clauses that are overlooked (`QuerySentence.alike_bare`); so whatever the parser
is, of two texts that are accepted it is known exactly when they mean the same (`parse_eq_iff`).
-/

namespace FlatQuery.Sql

open Outcome

/-! ### Differences in spelling -/

/-- Nothing between the parentheses, or no parentheses at all. -/
inductive CallArguments.IsEmpty : CallArguments → Prop
  | absent : IsEmpty .absent
  | list : IsEmpty (.list none [] [])

mutual

/-- Expressions that differ in spelling only. -/
inductive Phrase.Alike : Phrase → Phrase → Prop
  | refl (p : Phrase) : Phrase.Alike p p
  | name {a b : Ident} (h : a.value = b.value) : Phrase.Alike (.name a) (.name b)
  | path {as bs : List Ident} (h : as.map (·.value) = bs.map (·.value)) :
      Phrase.Alike (.path as) (.path bs)
  | integer {p q : Phrase} {n : Int} (hp : p.integer? = some n) (hq : q.integer? = some n) :
      Phrase.Alike p q
  | binary {l l' r r' : Phrase} (op : String) (hl : Phrase.Alike l l') (hr : Phrase.Alike r r') :
      Phrase.Alike (.binary l op r) (.binary l' op r')
  | nested {e e' : Phrase} (h : Phrase.Alike e e') : Phrase.Alike (.nested e) (.nested e')
  | call {ids ids' : List Ident} {args args' : CallArguments} (details : CallDetails)
      (hname : dotted ids = dotted ids') (hargs : CallArguments.Alike args args') :
      Phrase.Alike (.call ids args details) (.call ids' args' details)

inductive CallArguments.Alike : CallArguments → CallArguments → Prop
  | refl (args : CallArguments) : CallArguments.Alike args args
  | empty {args args' : CallArguments} (h : args.IsEmpty) (h' : args'.IsEmpty) :
      CallArguments.Alike args args'
  | list {args args' : List CallArgument} (quantifier : Option String) (clauses : List String)
      (h : AlikeCallArguments args args') :
      CallArguments.Alike (.list quantifier args clauses) (.list quantifier args' clauses)

/-- Lists of arguments that differ in spelling only, one by one. -/
inductive AlikeCallArguments : List CallArgument → List CallArgument → Prop
  | nil : AlikeCallArguments [] []
  | cons {a a' : CallArgument} {rest rest' : List CallArgument} (h : CallArgument.Alike a a')
      (hrest : AlikeCallArguments rest rest') : AlikeCallArguments (a :: rest) (a' :: rest')

inductive CallArgument.Alike : CallArgument → CallArgument → Prop
  | refl (a : CallArgument) : CallArgument.Alike a a
  | expr {e e' : Phrase} (h : Phrase.Alike e e') : CallArgument.Alike (.expr e) (.expr e')

end

/-- Sources that differ in spelling only: plain tables of one name about which the same is said, or
sources carried under one text. -/
inductive Joined.Alike : Joined → Joined → Prop
  | table {ids ids' : List Ident} (details : TableDetails)
      (h : ids.map (·.value) = ids'.map (·.value)) :
      Alike { first := { head := .table ids details } } { first := { head := .table ids' details } }
  | carried {j j' : Joined} {text : String} (h : j.meaning = .ok (.other text))
      (h' : j'.meaning = .ok (.other text)) : Alike j j'

inductive Item.Alike : Item → Item → Prop
  | refl (i : Item) : Alike i i
  | tableStar {qualifier qualifier' : String} (options : StarOptions)
      (h : starTable qualifier = starTable qualifier') :
      Alike (.tableStar qualifier options) (.tableStar qualifier' options)
  | expr {e e' : Phrase} (h : e.Alike e') : Alike (.expr e) (.expr e')

inductive Grouping.Alike : Grouping → Grouping → Prop
  | refl (g : Grouping) : Alike g g
  | exprs {es es' : List Phrase} (modifiers : List String) (h : List.Forall₂ Phrase.Alike es es') :
      Alike (.exprs es modifiers) (.exprs es' modifiers)

structure SortItem.Alike (o o' : SortItem) : Prop where
  expr : o.expr.Alike o'.expr
  ascending : o.options.ascending.getD true = o'.options.ascending.getD true
  nullsFirst : o.options.nullsFirst = o'.options.nullsFirst
  fill : o.fill = o'.fill

/-- Lists of sort keys that differ in spelling only. -/
inductive SortKeys.Alike : SortKeys → SortKeys → Prop
  | all (options : SortOptions) : Alike (.all options) (.all options)
  | items {keys keys' : List SortItem} (h : List.Forall₂ SortItem.Alike keys keys') :
      Alike (.items keys) (.items keys')

/-- SELECTs that differ in spelling only. -/
structure SelectSentence.Alike (s s' : SelectSentence) : Prop where
  place : s.place = s'.place
  valueMode : s.valueMode = s'.valueMode
  repeats : s.repeats = s'.repeats
  top : s.top = s'.top
  topFirst : s.topFirst = s'.topFirst
  items : List.Forall₂ Item.Alike s.items s'.items
  into : s.into = s'.into
  sources : List.Forall₂ Joined.Alike s.sources s'.sources
  lateralViews : s.lateralViews = s'.lateralViews
  prewhere : s.prewhere = s'.prewhere
  condition : Option.Rel Phrase.Alike s.condition s'.condition
  grouping : s.grouping.Alike s'.grouping
  clusterBy : s.clusterBy = s'.clusterBy
  distributeBy : s.distributeBy = s'.distributeBy
  sortBy : s.sortBy = s'.sortBy
  having : s.having = s'.having
  windows : s.windows = s'.windows
  qualify : s.qualify = s'.qualify
  windowsFirst : s.windowsFirst = s'.windowsFirst
  connectBy : s.connectBy = s'.connectBy

inductive Body.Alike : Body → Body → Prop
  | select {s s' : SelectSentence} (h : s.Alike s') : Alike (.select s) (.select s')
  | other (text : String) : Alike (.other text) (.other text)

/-- Queries that differ in spelling only: all that they say is the same. -/
structure QuerySentence.Alike (q q' : QuerySentence) : Prop where
  withClause : q.withClause = q'.withClause
  body : q.body.Alike q'.body
  orderBy : q.orderBy.Alike q'.orderBy
  interpolate : q.interpolate = q'.interpolate
  limit : q.limit = q'.limit
  offset : q.offset = q'.offset
  limitBy : q.limitBy = q'.limitBy
  settings : q.settings = q'.settings
  fetch : q.fetch = q'.fetch
  locks : q.locks = q'.locks
  shape : q.shape = q'.shape
  format : q.format = q'.format

/-! ### What is alike means the same -/

theorem CallArguments.IsEmpty.meaning_eq {args : CallArguments} (h : args.IsEmpty) :
    args.meaning = .ok [] := by
  cases h with
  | absent => rfl
  | list => rfl

mutual

theorem Phrase.Alike.meaning_eq : ∀ {p q : Phrase}, p.Alike q → p.meaning = q.meaning
  | _, _, .refl p => rfl
  | _, _, .name h => by rw [Phrase.meaning, Phrase.meaning, h]
  | _, _, .path h => by rw [Phrase.meaning_path, Phrase.meaning_path, h]
  | _, _, .integer hp hq => by
    rw [Phrase.meaning_of_integer? hp, Phrase.meaning_of_integer? hq]
  | _, _, .binary op hl hr => by
    rw [Phrase.meaning, Phrase.meaning, hl.meaning_eq, hr.meaning_eq]
  | _, _, .nested h => by rw [Phrase.meaning, Phrase.meaning, h.meaning_eq]
  | _, _, .call details hname hargs => by
    rw [Phrase.meaning, Phrase.meaning, hname, hargs.meaning_eq]

theorem CallArguments.Alike.meaning_eq :
    ∀ {args args' : CallArguments}, args.Alike args' → args.meaning = args'.meaning
  | _, _, .refl args => rfl
  | _, _, .empty h h' => by rw [h.meaning_eq, h'.meaning_eq]
  | _, _, .list quantifier clauses h => by
    rw [CallArguments.meaning, CallArguments.meaning, h.meaning_eq]

theorem AlikeCallArguments.meaning_eq : ∀ {args args' : List CallArgument},
    AlikeCallArguments args args' → callArgumentsMeaning args = callArgumentsMeaning args'
  | _, _, .nil => rfl
  | _, _, .cons h hrest => by
    rw [callArgumentsMeaning, callArgumentsMeaning, h.meaning_eq, hrest.meaning_eq]

theorem CallArgument.Alike.meaning_eq :
    ∀ {a a' : CallArgument}, a.Alike a' → a.meaning = a'.meaning
  | _, _, .refl a => rfl
  | _, _, .expr h => by rw [CallArgument.meaning, CallArgument.meaning, h.meaning_eq]

end

theorem Joined.Alike.meaning_eq {j j' : Joined} (h : j.Alike j') : j.meaning = j'.meaning := by
  cases h with
  | @table ids ids' details h =>
    have last : ids.getLast?.map (·.value) = ids'.getLast?.map (·.value) := by
      rw [← List.getLast?_map, ← List.getLast?_map, h]
    simp only [Joined.meaning, List.isEmpty_nil, if_true]
    cases hids : ids.getLast? with
    | none =>
      rw [hids, Option.map_none, eq_comm, Option.map_eq_none_iff] at last
      rw [last]
    | some id =>
      rw [hids, Option.map_some, eq_comm, Option.map_eq_some_iff] at last
      obtain ⟨id', hid', hvalue⟩ := last
      simp only [hid', hvalue]
  | carried h h' => rw [h, h']

theorem Item.Alike.meaning_eq {i i' : Item} (h : i.Alike i') : i.meaning = i'.meaning := by
  cases h with
  | refl => rfl
  | tableStar options h => rw [Item.meaning, Item.meaning, h]
  | expr h => rw [Item.meaning, Item.meaning, h.meaning_eq]

theorem Grouping.Alike.meaning_eq {g g' : Grouping} (h : g.Alike g') : g.meaning = g'.meaning := by
  cases h with
  | refl => rfl
  | exprs modifiers h => exact mapM_congr_of_forall₂ (fun _ _ he => he.meaning_eq) h

theorem SortItem.Alike.meaning_eq {o o' : SortItem} (h : o.Alike o') : o.meaning = o'.meaning := by
  rw [SortItem.meaning, SortItem.meaning, h.expr.meaning_eq, h.ascending]

theorem SortKeys.Alike.meaning_eq {k k' : SortKeys} (h : k.Alike k') : k.meaning = k'.meaning := by
  cases h with
  | all options => rfl
  | items h => exact mapM_congr_of_forall₂ (fun _ _ ho => ho.meaning_eq) h

theorem meaning_eq_of_rel {o o' : Option Phrase} (h : Option.Rel Phrase.Alike o o') :
    o.mapM (·.meaning) = o'.mapM (·.meaning) := by
  cases h with
  | none => rfl
  | some he => simp only [Option.mapM_some, he.meaning_eq]

theorem QuerySentence.Alike.meaning_eq {q q' : QuerySentence} (h : q.Alike q') :
    q.meaning = q'.meaning := by
  have hbody := h.body
  rw [QuerySentence.meaning, QuerySentence.meaning, h.withClause, h.limit, h.offset,
    h.orderBy.meaning_eq]
  revert hbody
  generalize q.body = body, q'.body = body'
  rintro (⟨h⟩ | text)
  · have items_eq := mapM_congr_of_forall₂ (fun _ _ hi => Item.Alike.meaning_eq hi) h.items
    have sources_eq := mapM_congr_of_forall₂ (fun _ _ hj => Joined.Alike.meaning_eq hj) h.sources
    simp only [h.repeats, h.having, h.grouping.meaning_eq, items_eq, sources_eq,
      meaning_eq_of_rel h.condition]
  · rfl

/-! ### What means the same is alike but for the overlooked clauses -/

theorem Phrase.integer?_bare (p : Phrase) : p.bare.integer? = p.integer? := by
  cases p <;> rfl

mutual

theorem Phrase.alike_bare : ∀ (e : Expr) {p q : Phrase}, p.meaning = .ok e → q.meaning = .ok e →
    p.bare.Alike q.bare
  | .column c, p, q, hp, hq => by
    cases Phrase.writes_of_meaning hp with
    | name h =>
      cases Phrase.writes_of_meaning hq with
      | name h' => exact .name (h.trans h'.symm)
    | path ht hc =>
      cases Phrase.writes_of_meaning hq with
      | path ht' hc' => exact .path (by simp only [List.map_cons, List.map_nil, ht, hc, ht', hc'])
  | .literal (.integer n), p, q, hp, hq => by
    cases Phrase.writes_of_meaning hp with
    | integer h =>
      cases Phrase.writes_of_meaning hq with
      | integer h' => exact .integer (p.integer?_bare.trans h) (q.integer?_bare.trans h')
  | .literal (.string s), p, q, hp, hq => by
    cases Phrase.writes_of_meaning hp with
    | string =>
      cases Phrase.writes_of_meaning hq with
      | string => exact .refl _
  | .binary l op r, p, q, hp, hq => by
    cases Phrase.writes_of_meaning hp with
    | binary _ hl hr =>
      cases Phrase.writes_of_meaning hq with
      | binary _ hl' hr' =>
        exact .binary op.symbol (Phrase.alike_bare l hl hl') (Phrase.alike_bare r hr hr')
  | .nested e, p, q, hp, hq => by
    cases Phrase.writes_of_meaning hp with
    | nested h =>
      cases Phrase.writes_of_meaning hq with
      | nested h' => exact .nested (Phrase.alike_bare e h h')
  | .call name es, p, q, hp, hq => by
    cases Phrase.writes_of_meaning hp with
    | call _ hname hargs =>
      cases Phrase.writes_of_meaning hq with
      | call _ hname' hargs' =>
        exact .call {} (hname.trans hname'.symm) (CallArguments.alike_bare es hargs hargs')

theorem CallArguments.alike_bare (es : List Argument) {args args' : CallArguments}
    (h : args.meaning = .ok es) (h' : args'.meaning = .ok es) : args.bare.Alike args'.bare := by
  cases CallArguments.writes_of_meaning h with
  | absent =>
    cases CallArguments.writes_of_meaning h' with
    | absent => exact .refl _
    | list _ _ hargs' =>
      cases hargs' with
      | nil => exact .empty .absent .list
  | list _ _ hargs =>
    cases CallArguments.writes_of_meaning h' with
    | absent =>
      cases hargs with
      | nil => exact .empty .list .absent
    | list _ _ hargs' => exact .list none [] (alikeCallArguments_bare es hargs hargs')

theorem alikeCallArguments_bare : ∀ (es : List Argument) {args args' : List CallArgument},
    List.Forall₂ (fun a e => a.meaning = .ok e) args es →
    List.Forall₂ (fun a e => a.meaning = .ok e) args' es →
    AlikeCallArguments (bareCallArguments args) (bareCallArguments args')
  | [], _, _, .nil, .nil => .nil
  | e :: es, _, _, .cons h hrest, .cons h' hrest' =>
    .cons (CallArgument.alike_bare e h h') (alikeCallArguments_bare es hrest hrest')

theorem CallArgument.alike_bare : ∀ (e : Argument) {a a' : CallArgument}, a.meaning = .ok e →
    a'.meaning = .ok e → a.bare.Alike a'.bare
  | .expr e, _, _, h, h' => by
    cases CallArgument.writes_of_meaning h with
    | expr hp =>
      cases CallArgument.writes_of_meaning h' with
      | expr hq => exact .expr (Phrase.alike_bare e hp hq)
  | .star, _, _, h, h' => by
    cases CallArgument.writes_of_meaning h with
    | star =>
      cases CallArgument.writes_of_meaning h' with
      | star => exact .refl _

end

theorem Joined.bare_of_table {j : Joined} {name : String} (h : j.meaning = .ok (.table name)) :
    ∃ id : Ident, j.bare = { first := { head := .table [id] {} } } ∧ id.value = name := by
  obtain ⟨⟨head, aliasName⟩, joins⟩ := j
  cases joins with
  | cons join joins => cases h
  | nil =>
    cases head with
    | joined text => cases aliasName <;> cases h
    | other text tail => cases aliasName <;> cases h
    | table ids details =>
      cases aliasName with
      | some aliasName => cases h
      | none =>
        simp only [Joined.meaning, List.isEmpty_nil, if_true] at h
        cases hids : ids.getLast? with
        | none =>
          rw [hids] at h
          cases h
        | some id =>
          rw [hids] at h
          refine ⟨id, ?_, Source.table.inj (Except.ok.inj h)⟩
          simp only [Joined.bare, hids, Option.toList_some]

theorem Joined.alike_bare {j j' : Joined} {source : Source} (h : j.meaning = .ok source)
    (h' : j'.meaning = .ok source) : j.bare.Alike j'.bare := by
  cases source with
  | table name =>
    obtain ⟨id, hid, hname⟩ := bare_of_table h
    obtain ⟨id', hid', hname'⟩ := bare_of_table h'
    rw [hid, hid']
    exact .table {} (by simp only [List.map_cons, List.map_nil, hname, hname'])
  | other text => exact .carried (j.meaning_bare.trans h) (j'.meaning_bare.trans h')

theorem Item.alike_bare {i i' : Item} {item : SelectItem} (h : i.meaning = .ok item)
    (h' : i'.meaning = .ok item) : i.bare.Alike i'.bare := by
  cases Item.writes_of_meaning h with
  | star =>
    cases Item.writes_of_meaning h' with
    | star => exact .refl _
  | tableStar _ hqualifier =>
    cases Item.writes_of_meaning h' with
    | tableStar _ hqualifier' => exact .tableStar {} (hqualifier.trans hqualifier'.symm)
  | expr hp =>
    cases Item.writes_of_meaning h' with
    | expr hq => exact .expr (Phrase.alike_bare _ hp hq)

theorem Grouping.alike_bare {g g' : Grouping} {es : List Expr} (h : g.meaning = .ok es)
    (h' : g'.meaning = .ok es) : g.bare.Alike g'.bare := by
  cases g with
  | all modifiers => cases h
  | exprs ps modifiers =>
    cases g' with
    | all modifiers => cases h'
    | exprs qs modifiers =>
      exact .exprs [] (forall₂_map_of_mapM (fun _ _ e hp hq => Phrase.alike_bare e hp hq) h h')

theorem SortItem.alike_bare {o o' : SortItem} {item : OrderItem} (h : o.meaning = .ok item)
    (h' : o'.meaning = .ok item) : o.bare.Alike o'.bare := by
  obtain ⟨hexpr, hascending⟩ := SortItem.meaning_eq_ok_iff.mp h
  obtain ⟨hexpr', hascending'⟩ := SortItem.meaning_eq_ok_iff.mp h'
  exact { expr := Phrase.alike_bare _ hexpr hexpr'
          ascending := hascending.trans hascending'.symm
          nullsFirst := rfl
          fill := rfl }

theorem SortKeys.alike_bare {k k' : SortKeys} {items : List OrderItem} (h : k.meaning = .ok items)
    (h' : k'.meaning = .ok items) : k.bare.Alike k'.bare := by
  cases k with
  | all options => cases h
  | items keys =>
    cases k' with
    | all options => cases h'
    | items keys' =>
      exact .items (forall₂_map_of_mapM (fun _ _ _ ho ho' => SortItem.alike_bare ho ho') h h')

theorem rel_bare_of_meaning {o o' : Option Phrase} {e : Option Expr}
    (h : o.mapM (·.meaning) = .ok e) (h' : o'.mapM (·.meaning) = .ok e) :
    Option.Rel Phrase.Alike (o.map (·.bare)) (o'.map (·.bare)) := by
  rw [optionMapM_eq_ok_iff] at h h'
  cases h with
  | none =>
    cases h' with
    | none => exact .none
  | some hp =>
    cases h' with
    | some hq => exact .some (Phrase.alike_bare _ hp hq)

theorem QuerySentence.alike_bare {q q' : QuerySentence} {s : Select} (h : q.meaning = .ok s)
    (h' : q'.meaning = .ok s) : q.bare.Alike q'.bare := by
  obtain ⟨b, hbody, ⟨hwith, hlimit, hoffset, hhaving⟩, hrepeats, hsources, hitems, hcondition,
    hgrouping, horderBy⟩ := meaning_eq_ok_iff.mp h
  obtain ⟨b', hbody', ⟨hwith', hlimit', hoffset', hhaving'⟩, hrepeats', hsources', hitems',
    hcondition', hgrouping', horderBy'⟩ := meaning_eq_ok_iff.mp h'
  -- what the meaning does not look at is the same in all bare forms
  have select : b.bare.Alike b'.bare :=
    { place := rfl
      valueMode := rfl
      repeats := Repeats.eq_of_meaning hrepeats hrepeats'
      top := rfl
      topFirst := rfl
      items := forall₂_map_of_mapM (fun _ _ _ hi hi' => Item.alike_bare hi hi') hitems hitems'
      into := rfl
      sources :=
        forall₂_map_of_mapM (fun _ _ _ hj hj' => Joined.alike_bare hj hj') hsources hsources'
      lateralViews := rfl
      prewhere := rfl
      condition := rel_bare_of_meaning hcondition hcondition'
      grouping := Grouping.alike_bare hgrouping hgrouping'
      clusterBy := rfl
      distributeBy := rfl
      sortBy := rfl
      having := hhaving.trans hhaving'.symm
      windows := rfl
      qualify := rfl
      windowsFirst := rfl
      connectBy := rfl }
  exact
    { withClause := hwith.trans hwith'.symm
      body := by
        rw [QuerySentence.bare, QuerySentence.bare, hbody, hbody']
        exact .select select
      orderBy := SortKeys.alike_bare horderBy horderBy'
      interpolate := rfl
      limit := hlimit.trans hlimit'.symm
      offset := hoffset.trans hoffset'.symm
      limitBy := rfl
      settings := rfl
      fetch := rfl
      locks := rfl
      shape := rfl
      format := rfl }

/-- **Two texts that are accepted mean the same SELECT exactly if the queries they are read as
differ, but for their overlooked clauses, in spelling only**; and where neither has such clauses,
exactly if they differ in spelling only.  This is so whatever the parser makes of the texts. -/
theorem parse_eq_iff [Parser] {text text' : String} {s s' : Select} (h : parse text = .ok s)
    (h' : parse text' = .ok s') :
    ∃ q q', Reads text q ∧ Reads text' q' ∧ (s = s' ↔ q.bare.Alike q'.bare) ∧
      (q.bare = q → q'.bare = q' → (s = s' ↔ q.Alike q')) := by
  obtain ⟨q, hq, hs⟩ := exists_reads h
  obtain ⟨q', hq', hs'⟩ := exists_reads h'
  have same_iff : s = s' ↔ q.bare.Alike q'.bare := by
    constructor
    · rintro rfl
      exact QuerySentence.alike_bare hs hs'
    · intro alike
      have equal := alike.meaning_eq
      rw [q.meaning_bare, q'.meaning_bare, hs, hs'] at equal
      exact Except.ok.inj equal
  refine ⟨q, q', hq, hq', same_iff, ?_⟩
  intro hbare hbare'
  rw [same_iff, hbare, hbare']

/-! ### A clause that is overlooked -/

def everything (name : String) : Select :=
  { items := [.star], sources := [.table name] }

/-- Whether an outcome is the query for all rows of a table. -/
def isEverything (name : String) : Except Error Select → Bool
  | .ok ⟨false, [.star], [.table table], none, [], []⟩ => table == name
  | _ => false

theorem eq_everything {name : String} {x : Except Error Select} (h : isEverything name x = true) :
    x = .ok (everything name) := by
  unfold isEverything at h
  split at h
  case h_1 table =>
    rw [beq_iff_eq.mp h]
    rfl
  case h_2 => cases h

theorem parse_star : parse "SELECT * FROM t" = .ok (everything "t") :=
  eq_everything (by decide +kernel)

theorem parse_top : parse "SELECT TOP 2 * FROM t" = .ok (everything "t") :=
  eq_everything (by decide +kernel)

/-- What a sentence says about the number of rows right after the word SELECT. -/
def Body.top? : Body → Option String
  | select s => s.top
  | other _ => none

def Sentence.top? : Sentence → Option String
  | query q => q.body.top?
  | other _ => none

theorem Body.Alike.top_eq {b b' : Body} (h : b.Alike b') : b.top? = b'.top? := by
  cases h with
  | select hs => exact hs.top
  | other text => rfl

/-- A text with TOP and the text without it are both accepted, as the same SELECT. -/
theorem parse_overlooks_top :
    ∃ q q', Reads "SELECT TOP 2 * FROM t" q ∧ Reads "SELECT * FROM t" q' ∧ ¬ q.Alike q' ∧
      parse "SELECT TOP 2 * FROM t" = .ok (everything "t") ∧
      parse "SELECT * FROM t" = .ok (everything "t") := by
  obtain ⟨q, hq, -⟩ := exists_reads parse_top
  obtain ⟨q', hq', -⟩ := exists_reads parse_star
  refine ⟨q, q', hq, hq', ?_, parse_top, parse_star⟩
  intro alike
  have top : (Parser.sentences? (Text.trim "SELECT TOP 2 * FROM t")).map (·.map Sentence.top?) ≠
      (Parser.sentences? (Text.trim "SELECT * FROM t")).map (·.map Sentence.top?) := by
    decide +kernel
  rw [hq, hq'] at top
  exact top (congrArg (fun t => some [t]) alike.body.top_eq)

theorem parse_eq_iff_sample :
    ∃ q q', Reads "SELECT TOP 2 * FROM t" q ∧ Reads "SELECT * FROM t" q' ∧
      (everything "t" = everything "t" ↔ q.bare.Alike q'.bare) ∧
      (q.bare = q → q'.bare = q' → (everything "t" = everything "t" ↔ q.Alike q')) :=
  parse_eq_iff parse_top parse_star

end FlatQuery.Sql
