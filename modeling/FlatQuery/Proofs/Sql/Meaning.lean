import FlatQuery.Proofs.Outcome
import FlatQuery.Sql.Query

/-!
# Sentences that have a meaning

How an expression that can be answered is written (`Phrase.Writes`), which queries mean a given
SELECT (`QuerySentence.meaning_eq_ok_iff`), and which texts hold one (`exists_reads`).
-/

namespace FlatQuery.Sql

open Outcome

/-! ### Expressions -/

namespace Phrase

/-- The integer that an expression writes, if it is a number with or without signs. -/
def integer? : Phrase → Option Int
  | .number digits _ => Integer.ofText? digits
  | .negated e => e.integer?.map (- ·)
  | _ => none

/-- The ways in which an expression is written, one step deep. -/
inductive Writes : Phrase → Expr → Prop
  | name {id : Ident} {column : String} (h : id.value = column) :
      Writes (.name id) (.column { column })
  | path {id id' : Ident} {table column : String} (h : id.value = table) (h' : id'.value = column) :
      Writes (.path [id, id']) (.column { table := some table, column })
  | integer {p : Phrase} {n : Int} (h : p.integer? = some n) : Writes p (.literal (.integer n))
  | string (s : String) : Writes (.string s) (.literal (.string s))
  | binary {p q : Phrase} {l r : Expr} (op : BinaryOp) (hl : p.meaning = .ok l)
      (hr : q.meaning = .ok r) : Writes (.binary p op.symbol q) (.binary l op r)
  | nested {p : Phrase} {e : Expr} (h : p.meaning = .ok e) : Writes (.nested p) (.nested e)
  | call {ids : List Ident} {name : String} {args : CallArguments} {es : List Argument}
      (details : CallDetails) (hname : dotted ids = name) (h : args.meaning = .ok es) :
      Writes (.call ids args details) (.call name es)

theorem meaning_of_integer? {p : Phrase} {n : Int} (h : p.integer? = some n) :
    p.meaning = .ok (.literal (.integer n)) := by
  fun_induction integer? p generalizing n with
  | case1 digits => simp only [meaning, h]
  | case2 e ih =>
    obtain ⟨m, hm, rfl⟩ := Option.map_eq_some_iff.mp h
    simp only [meaning, ih hm, ok_bind, pure_eq_ok]
  | case3 => cases h

theorem meaning_path (ids : List Ident) : (Phrase.path ids).meaning =
    match ids.map (·.value) with
    | [table, column] => .ok (.column { table := some table, column })
    | values => .error (.longName (Text.joined "." values)) :=
  match ids with
  | [] => rfl
  | [_] => rfl
  | [_, _] => rfl
  | _ :: _ :: _ :: _ => rfl

theorem symbol_of_ofSymbol? {sym : String} {op : BinaryOp} (h : BinaryOp.ofSymbol? sym = some op) :
    op.symbol = sym := by
  simpa using List.find?_some h

theorem writes_of_meaning : ∀ {p : Phrase} {e : Expr}, p.meaning = .ok e → p.Writes e
  | .name id, _, h => by
    obtain rfl := Except.ok.inj h
    exact .name rfl
  | .path [table, column], _, h => by
    obtain rfl := Except.ok.inj h
    exact .path rfl rfl
  | .number digits long, _, h => by
    rw [meaning] at h
    split at h
    case h_1 n hn =>
      obtain rfl := Except.ok.inj h
      exact .integer hn
    case h_2 => cases h
  | .string s, _, h => by
    obtain rfl := Except.ok.inj h
    exact .string s
  | .binary p sym q, _, h => by
    rw [meaning] at h
    obtain ⟨l, hl, r, hr, h⟩ := by simpa only [bind_eq_ok_iff] using h
    split at h
    case h_1 op hop =>
      obtain rfl := Except.ok.inj h
      rw [← symbol_of_ofSymbol? hop]
      exact .binary op hl hr
    case h_2 => cases h
  | .negated p, _, h => by
    rw [meaning] at h
    obtain ⟨a, ha, h⟩ := bind_eq_ok_iff.mp h
    split at h
    case h_1 n =>
      obtain rfl := Except.ok.inj h
      -- Only a number is read as an integer, so the sign stands before a number.
      cases writes_of_meaning ha with
      | integer hn => exact .integer (Option.map_eq_some_iff.mpr ⟨n, hn, rfl⟩)
    case h_2 => cases h
  | .nested p, _, h => by
    obtain ⟨e, he, h⟩ := bind_eq_ok_iff.mp h
    obtain rfl := Except.ok.inj h
    exact .nested he
  | .call ids args details, _, h => by
    rw [meaning] at h
    obtain ⟨es, hes, h⟩ := bind_eq_ok_iff.mp h
    obtain rfl := Except.ok.inj h
    exact .call details rfl hes

end Phrase

/-! ### Arguments -/

/-- The ways in which an argument is written. -/
inductive CallArgument.Writes : CallArgument → Argument → Prop
  | expr {p : Phrase} {e : Expr} (h : p.meaning = .ok e) : Writes (.expr p) (.expr e)
  | star : Writes .star .star

theorem CallArgument.writes_of_meaning {a : CallArgument} {e : Argument} (h : a.meaning = .ok e) :
    a.Writes e := by
  cases a with
  | expr p =>
    rw [CallArgument.meaning] at h
    obtain ⟨e, he, h⟩ := bind_eq_ok_iff.mp h
    obtain rfl := Except.ok.inj h
    exact .expr he
  | star =>
    obtain rfl := Except.ok.inj h
    exact .star
  | other text => cases h

theorem callArgumentsMeaning_eq_mapM (args : List CallArgument) :
    callArgumentsMeaning args = args.mapM (·.meaning) := by
  induction args with
  | nil => rfl
  | cons a rest ih => rw [callArgumentsMeaning, List.mapM_cons, ih]

/-- The ways in which arguments are written: as a list, or with no parentheses if there are none. -/
inductive CallArguments.Writes : CallArguments → List Argument → Prop
  | absent : Writes .absent []
  | list {args : List CallArgument} {es : List Argument} (quantifier : Option String)
      (clauses : List String) (h : List.Forall₂ (fun a e => a.meaning = .ok e) args es) :
      Writes (.list quantifier args clauses) es

theorem CallArguments.writes_of_meaning {args : CallArguments} {es : List Argument}
    (h : args.meaning = .ok es) : args.Writes es := by
  cases args with
  | absent =>
    obtain rfl := Except.ok.inj h
    exact .absent
  | query text => cases h
  | list quantifier args clauses =>
    rw [CallArguments.meaning, callArgumentsMeaning_eq_mapM, mapM_eq_ok_iff] at h
    exact .list quantifier clauses h

/-! ### Clauses -/

/-- The ways in which an item is written. -/
inductive Item.Writes : Item → SelectItem → Prop
  | star (options : StarOptions) : Writes (.star options) .star
  | tableStar {qualifier table : String} (options : StarOptions) (h : starTable qualifier = table) :
      Writes (.tableStar qualifier options) (.tableStar table)
  | expr {p : Phrase} {e : Expr} (h : p.meaning = .ok e) : Writes (.expr p) (.expr e)

theorem Item.writes_of_meaning {i : Item} {item : SelectItem} (h : i.meaning = .ok item) :
    i.Writes item := by
  cases i with
  | star options =>
    obtain rfl := Except.ok.inj h
    exact .star options
  | tableStar qualifier options =>
    obtain rfl := Except.ok.inj h
    exact .tableStar options rfl
  | expr p =>
    rw [Item.meaning] at h
    obtain ⟨e, he, h⟩ := bind_eq_ok_iff.mp h
    obtain rfl := Except.ok.inj h
    exact .expr he
  | aliased p aliasName => cases h

theorem Repeats.eq_of_meaning {r r' : Repeats} {distinct : Bool} (h : r.meaning = .ok distinct)
    (h' : r'.meaning = .ok distinct) : r = r' := by
  cases r <;> cases r' <;> simp_all [Repeats.meaning]

theorem SortItem.meaning_eq_ok_iff {o : SortItem} {item : OrderItem} : o.meaning = .ok item ↔
    o.expr.meaning = .ok item.expr ∧ o.options.ascending.getD true = item.ascending := by
  obtain ⟨e, ascending⟩ := item
  simp [SortItem.meaning, bind_eq_ok_iff]

/-! ### Queries -/

/-- What a query that has a meaning consists of, and what its clauses give. -/
theorem QuerySentence.meaning_eq_ok_iff {q : QuerySentence} {s : Select} :
    q.meaning = .ok s ↔ ∃ b, q.body = .select b ∧
      (q.withClause = none ∧ q.limit = none ∧ q.offset = none ∧ b.having = none) ∧
      b.repeats.meaning = .ok s.distinct ∧ b.sources.mapM (·.meaning) = .ok s.sources ∧
      b.items.mapM (·.meaning) = .ok s.items ∧ b.condition.mapM (·.meaning) = .ok s.condition ∧
      b.grouping.meaning = .ok s.groupBy ∧ q.orderBy.meaning = .ok s.orderBy := by
  rw [QuerySentence.meaning]
  cases q.body with
  | other text => simp
  | select b =>
    simp only [Body.select.injEq, exists_eq_left', pure_eq_ok, ite_throw_eq_ok_iff,
      bind_eq_ok_iff, Except.ok.injEq]
    simp only [Bool.or_eq_true, not_or, Option.not_isSome_iff_eq_none]
    constructor
    · rintro ⟨hwith, ⟨hlimit, hoffset⟩, hhaving, distinct, hdistinct, sources, hsources, items,
        hitems, condition, hcondition, groupBy, hgroupBy, orderBy, horderBy, rfl⟩
      exact ⟨⟨hwith, hlimit, hoffset, hhaving⟩, hdistinct, hsources, hitems, hcondition, hgroupBy,
        horderBy⟩
    · rintro ⟨⟨hwith, hlimit, hoffset, hhaving⟩, hdistinct, hsources, hitems, hcondition, hgroupBy,
        horderBy⟩
      exact ⟨hwith, ⟨hlimit, hoffset⟩, hhaving, _, hdistinct, _, hsources, _, hitems, _, hcondition,
        _, hgroupBy, _, horderBy, rfl⟩

/-! ### Texts -/

variable [Parser]

/-- The text is read as one query. -/
def Reads (text : String) (q : QuerySentence) : Prop :=
  Parser.sentences? (Text.trim text) = some [.query q]

/-- A text that is read as one statement means what the statement means. -/
theorem parse_of_sentence {text : String} {s : Sentence} (hsome : (Text.trim text).isEmpty = false)
    (h : Parser.sentences? (Text.trim text) = some [s]) : parse text = s.meaning := by
  rw [parse, hsome, h]
  rfl

/-- A text that is accepted is read as one query, and means what that means. -/
theorem exists_reads {text : String} {s : Select} (h : parse text = .ok s) :
    ∃ q, Reads text q ∧ q.meaning = .ok s := by
  rw [parse] at h
  split at h
  case isTrue => cases h
  case isFalse =>
    split at h
    case h_3 sentence found =>
      cases sentence with
      | query q => exact ⟨q, found, h⟩
      | other text => cases h
    all_goals cases h

end FlatQuery.Sql
