import FlatQuery.Plan.Conjuncts
import FlatQuery.Proofs.Name
import FlatQuery.Proofs.Query.Truth
import Mathlib.Data.List.Perm.Basic

/-!
# Who takes which conjunct

A condition is an AND of conjuncts (`Expr.AndOf`), and requests take them by the tables that they
mention (`Request.IsFor`).  Whatever is asked for, and in whatever order, no conjunct is lost and none
is handed out twice (`taken_once`): one request shares the conjuncts that are left between itself and
those that come after it (`serves_answer`), and so do any number of them.
-/

namespace FlatQuery

namespace Expr

/-- That a condition is the AND of some expressions, from left to right, none of which is an AND
itself.  Parentheses are not looked into. -/
inductive AndOf : Expr → List Expr → Prop
  | single {e : Expr} (h : ∀ l r, e ≠ .binary l .and r) : AndOf e [e]
  | and {l r : Expr} {cs ds : List Expr} :
      AndOf l cs → AndOf r ds → AndOf (.binary l .and r) (cs ++ ds)

theorem andOf_conjuncts (e : Expr) : e.AndOf e.conjuncts := by
  induction e using shallow with
  | binary l op r ihl ihr =>
    cases op with
    | and => exact .and ihl ihr
    | _ => exact .single fun _ _ h => nomatch h
  | _ => exact .single fun _ _ h => nomatch h

/-- A condition is the AND of its conjuncts, and of nothing else. -/
theorem andOf_iff {e : Expr} {cs : List Expr} : e.AndOf cs ↔ cs = e.conjuncts := by
  constructor
  · intro h
    induction h with
    | @single e h =>
      unfold conjuncts
      split
      · next l r => exact absurd rfl (h l r)
      · rfl
    | and _ _ ihl ihr => rw [conjuncts, ihl, ihr]
  · rintro rfl
    exact andOf_conjuncts e

/-- That a reference of the expression is qualified with a table, however its name is spelled. -/
def Mentions (e : Expr) (table : String) : Prop :=
  ∃ c ∈ e.columns, ∃ t, c.table = some t ∧ Name.canonical t = Name.canonical table

theorem canonical_mem_tables_iff {e : Expr} {table : String} :
    Name.canonical table ∈ e.tables ↔ e.Mentions table := by
  simp only [tables, Name.mem_sorted, List.mem_filterMap, Option.map_eq_some_iff, Mentions]

/-- What is said of all tables of an expression is said of those that it mentions. -/
theorem forall_mem_tables_iff {e : Expr} {P : String → Prop} :
    (∀ t ∈ e.tables, P t) ↔ ∀ table, e.Mentions table → P (Name.canonical table) := by
  constructor
  · intro h table htable
    exact h _ (canonical_mem_tables_iff.mpr htable)
  · intro h t ht
    have hcanonical : Name.canonical t = t := by
      simp only [tables, Name.mem_sorted, List.mem_filterMap, Option.map_eq_some_iff] at ht
      obtain ⟨c, -, u, -, rfl⟩ := ht
      exact Name.canonical_canonical u
    rw [← hcanonical] at ht ⊢
    exact h t (canonical_mem_tables_iff.mp ht)

end Expr

namespace Conjuncts

open Name (canonical)

/-! ### Requests -/

inductive Request where
  /-- The conjuncts about one table alone. -/
  | table (name : String)
  /-- The conjuncts about a table and those on its left. -/
  | join (left : List String) (right : String)
  /-- All conjuncts that are left. -/
  | rest

/-- The conjuncts that a request is for. -/
def Request.IsFor : Request → Expr → Prop
  | table name, e => ∀ t, e.Mentions t → canonical t = canonical name
  | join left right, e =>
    e.Mentions right ∧ ∀ t, e.Mentions t →
      canonical t = canonical right ∨ ∃ l ∈ left, canonical l = canonical t
  | rest, _ => True

/-- Serves a request: what it gets, and what is left. -/
def answer (c : Conjuncts) : Request → List Expr × Conjuncts
  | .table name => c.takeTable name
  | .join left right => c.takeJoin left right
  | .rest => c.takeAll

/-- Serves requests one after the other: what each of them gets, and what is left. -/
def answerAll (c : Conjuncts) : List Request → List (List Expr) × Conjuncts
  | [] => ([], c)
  | r :: rest =>
    (((c.answer r).1 :: ((c.answer r).2.answerAll rest).1), ((c.answer r).2.answerAll rest).2)

theorem mentionsOnly_iff {name : String} {e : Expr} :
    mentionsOnly (canonical name) e = true ↔ (Request.table name).IsFor e := by
  simp only [mentionsOnly, List.all_eq_true, beq_iff_eq, Expr.forall_mem_tables_iff, Request.IsFor]

theorem connects_iff {left : List String} {right : String} {e : Expr} :
    connects (left.map canonical) (canonical right) e = true ↔
      (Request.join left right).IsFor e := by
  simp only [connects, Bool.and_eq_true, List.contains_iff_mem, List.all_eq_true, Bool.or_eq_true,
    beq_iff_eq, Expr.canonical_mem_tables_iff, Expr.forall_mem_tables_iff, List.mem_map,
    Request.IsFor]

theorem exists_answer_eq_take (r : Request) :
    ∃ p : Expr → Bool, (∀ e, p e = true ↔ r.IsFor e) ∧ ∀ c : Conjuncts, c.answer r = c.take p := by
  cases r with
  | table name => exact ⟨_, fun _ => mentionsOnly_iff, fun _ => rfl⟩
  | join left right => exact ⟨_, fun _ => connects_iff, fun _ => rfl⟩
  | rest => exact ⟨fun _ => true, fun _ => iff_of_true rfl trivial, fun _ => rfl⟩

/-! ### Sharing -/

/-- That some expressions are shared, in their order, between a request and those after it. -/
structure Serves (es : List Expr) (r : Request) (taken left : List Expr) : Prop where
  whole : (taken ++ left).Perm es
  taken_sublist : taken.Sublist es
  left_sublist : left.Sublist es
  asked : ∀ e ∈ taken, r.IsFor e
  spared : ∀ e ∈ left, ¬ r.IsFor e

theorem serves_answer (c : Conjuncts) (r : Request) :
    Serves c.pending r (c.answer r).1 (c.answer r).2.pending := by
  obtain ⟨p, hp, htake⟩ := exists_answer_eq_take r
  rw [htake]
  constructor
  case whole => exact List.filter_append_perm p c.pending
  case taken_sublist => exact List.filter_sublist
  case left_sublist => exact List.filter_sublist
  case asked =>
    intro e he
    exact (hp e).mp (List.mem_filter.mp he).2
  case spared =>
    intro e he hfor
    have hnot := (List.mem_filter.mp he).2
    rw [(hp e).mpr hfor] at hnot
    cases hnot

variable (c : Conjuncts) (rs : List Request)

theorem answerAll_cons (r : Request) :
    c.answerAll (r :: rs) =
      ((c.answer r).1 :: ((c.answer r).2.answerAll rs).1, ((c.answer r).2.answerAll rs).2) := rfl

theorem sublist_answerAll : (c.answerAll rs).2.pending.Sublist c.pending := by
  induction rs generalizing c with
  | nil => exact List.Sublist.refl _
  | cons r rs ih => exact (ih _).trans (c.serves_answer r).left_sublist

theorem perm_answerAll :
    ((c.answerAll rs).1.flatten ++ (c.answerAll rs).2.pending).Perm c.pending := by
  induction rs generalizing c with
  | nil => exact List.Perm.refl _
  | cons r rs ih =>
    rw [answerAll_cons, List.flatten_cons, List.append_assoc]
    exact ((ih _).append_left _).trans (c.serves_answer r).whole

/-- Each request gets what it is for, in the order of the condition. -/
theorem forall₂_answerAll :
    List.Forall₂ (fun r taken => taken.Sublist c.pending ∧ ∀ e ∈ taken, r.IsFor e) rs
      (c.answerAll rs).1 := by
  induction rs generalizing c with
  | nil => exact .nil
  | cons r rs ih =>
    have hserves := c.serves_answer r
    refine .cons ⟨hserves.taken_sublist, hserves.asked⟩ ?_
    refine (ih (c.answer r).2).imp fun r' taken h => ?_
    exact ⟨h.1.trans hserves.left_sublist, h.2⟩

theorem not_isFor_of_answerAll :
    ∀ r ∈ rs, ∀ e ∈ (c.answerAll rs).2.pending, ¬ r.IsFor e := by
  induction rs generalizing c with
  | nil => exact fun r hr => nomatch hr
  | cons r rs ih =>
    refine List.forall_mem_cons.mpr ⟨fun e he => ?_, ih _⟩
    exact (c.serves_answer r).spared e (((c.answer r).2.sublist_answerAll rs).subset he)

/-- **No conjunct is lost and none is taken twice.**  Whatever is asked for, what the requests got and
what is left are together the conjuncts of the condition.  Each request got only what it is for, and
what is left no request was for; after a request for the rest nothing is left.  All of it stands in
the order of the condition. -/
theorem taken_once (condition : Option Expr) (requests : List Request) :
    ∃ cs, condition.elim (cs = []) (·.AndOf cs) ∧
      (((ofCondition condition).answerAll requests).1.flatten ++
        ((ofCondition condition).answerAll requests).2.pending).Perm cs ∧
      List.Forall₂ (fun r taken => taken.Sublist cs ∧ ∀ e ∈ taken, r.IsFor e) requests
        ((ofCondition condition).answerAll requests).1 ∧
      ((ofCondition condition).answerAll requests).2.pending.Sublist cs ∧
      (∀ r ∈ requests, ∀ e ∈ ((ofCondition condition).answerAll requests).2.pending,
        ¬ r.IsFor e) ∧
      (.rest ∈ requests → ((ofCondition condition).answerAll requests).2.pending = []) := by
  have hspared := not_isFor_of_answerAll (ofCondition condition) requests
  refine ⟨(ofCondition condition).pending, ?_, perm_answerAll _ _, forall₂_answerAll _ _,
    sublist_answerAll _ _, hspared, ?_⟩
  · cases condition with
    | none => rfl
    | some e => exact Expr.andOf_conjuncts e
  · intro hrest
    exact List.eq_nil_iff_forall_not_mem.mpr fun e he => hspared .rest hrest e he trivial

/-- A conjunct about a table and one without tables go to that table; the join of two tables waits for
the one that is named last. -/
example :
    let named (t : String) : Expr := .column { table := some t, column := "x" }
    let join : Expr := .binary (named "a") .equal (named "B")
    let requests : List Request := [.table "A", .join [] "a", .join ["a"] "b", .rest]
    let one : Expr := .literal (.integer 1)
    ((ofCondition (some (.binary join .and (.binary (named "a") .and one)))).answerAll
      requests).1.map (·.map (·.text)) = [["a.x", "1"], [], ["a.x = B.x"], []] := by
  decide +kernel

end Conjuncts

end FlatQuery
