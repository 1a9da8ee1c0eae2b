import FlatQuery.Proofs.Query.Qualified

/-!
# Conditions cut into conjuncts and put together again

A condition is cut at its ANDs into conjuncts, and what nobody takes is put together again from the
left.  The condition that comes back is another tree, but it means the same (`Scope.meaning`): ANDs
may be regrouped, because both of their sides are evaluated, from left to right
(`meaning_and_assoc`).  With references brought into full form in between, the condition evaluates
as before up to the column names that its messages quote (`Term.Relabelled`).
-/

namespace FlatQuery

open Outcome
open Rows (Error)

/-- An expression put together again from the conjuncts that it is cut into. -/
def Conjuncts.rejoined (e : Expr) : Option Expr :=
  Expr.conjunction? (ofCondition (some e)).takeAll.1

namespace Scope

/-! ### Regrouping conjunctions -/

/-- What an expression means as a condition: how its columns are bound, or with which error they
are not, and what it then gives for every row. -/
def meaning (s : Scope) (e : Expr) : Except Error (Row → Except Error Bool) := do
  let t ← s.bind e
  return fun row => Term.passes (some t) row

/-- What a conjunction means, given what its sides mean. -/
def both (p q : Row → Except Error Bool) (row : Row) : Except Error Bool := do
  let a ← p row
  let b ← q row
  return a && b

variable {s : Scope} {l l' r : Expr}

theorem both_assoc (p q r : Row → Except Error Bool) : both (both p q) r = both p (both q r) := by
  funext row
  unfold both
  cases p row with
  | error e => rfl
  | ok a =>
    cases q row with
    | error e => rfl
    | ok b =>
      cases r row with
      | error e => rfl
      | ok c => exact congrArg Except.ok (Bool.and_assoc a b c)

theorem meaning_and (s : Scope) (l r : Expr) : s.meaning (.binary l .and r) =
    (s.meaning l >>= fun p => s.meaning r >>= fun q => pure (both p q)) := by
  unfold meaning
  rw [bind]
  cases s.bind l with
  | error e => rfl
  | ok t =>
    cases s.bind r with
    | error e => rfl
    | ok u => rfl

theorem meaning_and_congr (h : s.meaning l' = s.meaning l) (r : Expr) :
    s.meaning (.binary l' .and r) = s.meaning (.binary l .and r) := by
  rw [meaning_and, meaning_and, h]

theorem meaning_and_assoc (s : Scope) (a b c : Expr) :
    s.meaning (.binary (.binary a .and b) .and c) =
      s.meaning (.binary a .and (.binary b .and c)) := by
  simp only [meaning_and]
  cases s.meaning a with
  | error e => rfl
  | ok p =>
    cases s.meaning b with
    | error e => rfl
    | ok q =>
      cases s.meaning c with
      | error e => rfl
      | ok r => exact congrArg Except.ok (both_assoc p q r)

/-- Conjuncts put together behind a first one mean the conjunction they were cut from, behind that
one. -/
theorem meaning_foldl_conjuncts (s : Scope) (e first : Expr) :
    s.meaning (e.conjuncts.foldl (fun acc next => .binary acc .and next) first) =
      s.meaning (.binary first .and e) := by
  induction e using Expr.shallow generalizing first with
  | column c => rfl
  | literal v => rfl
  | binary l op r ihl ihr =>
    cases op with
    | and =>
      rw [Expr.conjuncts, List.foldl_append, ihr, meaning_and_congr (ihl first),
        meaning_and_assoc]
    | _ => rfl
  | nested e ih => rfl
  | call name args => rfl

theorem exists_conjunction_conjuncts (e : Expr) :
    ∃ e', Expr.conjunction? e.conjuncts = some e' ∧ ∀ s : Scope, s.meaning e' = s.meaning e := by
  induction e using Expr.shallow with
  | column c => exact ⟨_, rfl, fun _ => rfl⟩
  | literal v => exact ⟨_, rfl, fun _ => rfl⟩
  | binary l op r ihl ihr =>
    cases op with
    | and =>
      obtain ⟨l', hl', hl⟩ := ihl
      cases hcs : l.conjuncts with
      | nil =>
        rw [hcs] at hl'
        cases hl'
      | cons c cs =>
        rw [hcs] at hl'
        cases hl'
        refine ⟨_, by rw [Expr.conjuncts, hcs]; rfl, ?_⟩
        intro s
        rw [List.append_eq, List.foldl_append, meaning_foldl_conjuncts, meaning_and_congr (hl s)]
    | _ => exact ⟨_, rfl, fun _ => rfl⟩
  | nested e ih => exact ⟨_, rfl, fun _ => rfl⟩
  | call name args => exact ⟨_, rfl, fun _ => rfl⟩

theorem exists_rejoined (e : Expr) :
    ∃ e', Conjuncts.rejoined e = some e' ∧ ∀ s : Scope, s.meaning e' = s.meaning e := by
  have hall : (Conjuncts.ofCondition (some e)).takeAll.1 = e.conjuncts :=
    List.filter_eq_self.mpr fun _ _ => rfl
  rw [Conjuncts.rejoined, hall]
  exact exists_conjunction_conjuncts e

end Scope

/-! ### Up to the names of columns -/

namespace Expr

mutual

/-- The expression with all its references replaced by the same one. -/
def nameless : Expr → Expr
  | column _ => column default
  | literal v => literal v
  | binary l op r => binary l.nameless op r.nameless
  | call name args => call name (namelessArguments args)
  | nested e => nested e.nameless

/-- The arguments with all references replaced by the same one. -/
def namelessArguments : List Argument → List Argument
  | [] => []
  | a :: rest => namelessArgument a :: namelessArguments rest

/-- The argument with all its references replaced by the same one. -/
def namelessArgument : Argument → Argument
  | .expr e => .expr e.nameless
  | .star => .star

end

end Expr

/-- That two terms differ at most in the column names they show: in the labels of fields, and in
the references that calls are written with. -/
inductive Term.Relabelled : Term → Term → Prop
  | literal (v : Literal) : Relabelled (.literal v) (.literal v)
  | field (i : Nat) (label label' : String) : Relabelled (.field i label) (.field i label')
  | binary {l l' r r' : Term} (op : BinaryOp) :
      Relabelled l l' → Relabelled r r' → Relabelled (.binary l op r) (.binary l' op r')
  | nested {t t' : Term} : Relabelled t t' → Relabelled (.nested t) (.nested t')
  | call {e e' : Expr} : e.nameless = e'.nameless → Relabelled (.call e.text) (.call e'.text)

/-- That two errors differ at most in the column names that the terms they quote show. -/
inductive Rows.Error.Relabelled : Error → Error → Prop
  | same (e : Error) : Relabelled e e
  | notCondition {t t' : Term} :
      t.Relabelled t' → Relabelled (.notCondition t) (.notCondition t')
  | notOperand {t t' : Term} : t.Relabelled t' → Relabelled (.notOperand t) (.notOperand t')

/-- That two outcomes are the same value, or errors that differ at most in the column names
shown. -/
inductive Rows.Agree {α : Type} : Except Error α → Except Error α → Prop
  | ok (a : α) : Agree (.ok a) (.ok a)
  | error {e e' : Error} : e.Relabelled e' → Agree (.error e) (.error e')

namespace Rows

variable {α β : Type}

theorem Agree.refl (x : Except Error α) : Agree x x := by
  cases x with
  | error e => exact .error (.same e)
  | ok a => exact .ok a

theorem Agree.bind {x y : Except Error α} {f g : α → Except Error β} (h : Agree x y)
    (hf : ∀ a, Agree (f a) (g a)) : Agree (x >>= f) (y >>= g) := by
  cases h with
  | ok a => exact hf a
  | error he => exact .error he

end Rows

namespace Term

variable {t t' : Term}

theorem Relabelled.operand (h : t.Relabelled t') (row : Row) :
    Rows.Agree (t.operand row) (t'.operand row) := by
  induction h with
  | literal v => exact .refl _
  | field i label label' => exact .refl _
  | binary op hl hr _ _ => exact .error (.notOperand (.binary op hl hr))
  | nested _ ih => exact ih
  | call he => exact .error (.notOperand (.call he))

/-- Terms that differ in the column names they show evaluate alike as conditions. -/
theorem Relabelled.holds (h : t.Relabelled t') (row : Row) :
    Rows.Agree (t.holds row) (t'.holds row) := by
  induction h with
  | literal v => exact .refl _
  | field i label label' => exact .error (.notCondition (.field i label label'))
  | binary op hl hr ihl ihr =>
    rw [Term.holds, Term.holds]
    cases op.connective? with
    | some join => exact ihl.bind fun a => ihr.bind fun b => .refl _
    | none =>
      cases op.comparison? with
      | some relation =>
        exact (hl.operand row).bind fun a => (hr.operand row).bind fun b => .refl _
      | none => exact .error (.notCondition (.binary op hl hr))
  | nested _ ih => exact ih
  | call he => exact .error (.notCondition (.call he))

end Term

namespace Scope

/-! ### References in full -/

mutual

theorem nameless_of_qualifyExpr {s : Scope} : ∀ {e q : Expr}, s.qualifyExpr e = .ok q →
    e.nameless = q.nameless
  | .column d, q, h => by
    obtain ⟨c, -, h⟩ := bind_eq_ok_iff.mp h
    cases h
    rfl
  | .literal v, q, h => by
    cases h
    rfl
  | .binary l op r, q, h => by
    obtain ⟨x, hx, h⟩ := bind_eq_ok_iff.mp h
    obtain ⟨y, hy, h⟩ := bind_eq_ok_iff.mp h
    cases h
    rw [Expr.nameless, Expr.nameless, nameless_of_qualifyExpr hx, nameless_of_qualifyExpr hy]
  | .nested e, q, h => by
    obtain ⟨x, hx, h⟩ := bind_eq_ok_iff.mp h
    cases h
    rw [Expr.nameless, Expr.nameless, nameless_of_qualifyExpr hx]
  | .call name args, q, h => by
    obtain ⟨xs, hxs, h⟩ := bind_eq_ok_iff.mp h
    cases h
    rw [Expr.nameless, Expr.nameless, nameless_of_qualifyArguments hxs]

theorem nameless_of_qualifyArguments {s : Scope} : ∀ {args qs : List Argument},
    s.qualifyArguments args = .ok qs → Expr.namelessArguments args = Expr.namelessArguments qs
  | [], qs, h => by
    cases h
    rfl
  | a :: rest, qs, h => by
    obtain ⟨x, hx, h⟩ := bind_eq_ok_iff.mp h
    obtain ⟨xs, hxs, h⟩ := bind_eq_ok_iff.mp h
    cases h
    rw [Expr.namelessArguments, Expr.namelessArguments, nameless_of_qualifyArgument hx,
      nameless_of_qualifyArguments hxs]

theorem nameless_of_qualifyArgument {s : Scope} : ∀ {a q : Argument},
    s.qualifyArgument a = .ok q → Expr.namelessArgument a = Expr.namelessArgument q
  | .expr e, q, h => by
    obtain ⟨x, hx, h⟩ := bind_eq_ok_iff.mp h
    cases h
    rw [Expr.namelessArgument, Expr.namelessArgument, nameless_of_qualifyExpr hx]
  | .star, q, h => by
    cases h
    rfl

end

variable {ts : List ScopeTable} {e q : Expr}

/-- The full form of an expression is bound to the same term, up to the column names shown. -/
theorem relabelled_of_qualifyExpr (hr : Regular ts) (h : (joined ts).qualifyExpr e = .ok q) :
    ∃ t t', (joined ts).bind e = .ok t ∧ (joined ts).bind q = .ok t' ∧ t.Relabelled t' := by
  induction e using Expr.shallow generalizing q with
  | column d =>
    obtain ⟨c, hc, h⟩ := bind_eq_ok_iff.mp h
    cases h
    obtain ⟨i, hi, hloc⟩ := located_of_qualify hc
    exact ⟨_, _, bind_eq_ok_iff.mpr ⟨i, hi, rfl⟩,
      bind_eq_ok_iff.mpr ⟨i, hloc.resolve_joined hr, rfl⟩, .field i _ _⟩
  | literal v =>
    cases h
    exact ⟨_, _, rfl, rfl, .literal v⟩
  | binary l op r ihl ihr =>
    obtain ⟨x, hx, h⟩ := bind_eq_ok_iff.mp h
    obtain ⟨y, hy, h⟩ := bind_eq_ok_iff.mp h
    cases h
    obtain ⟨tl, tl', hl, hl', hrl⟩ := ihl hx
    obtain ⟨tr, tr', hr, hr', hrr⟩ := ihr hy
    refine ⟨_, _, bind_eq_ok_iff.mpr ⟨tl, hl, bind_eq_ok_iff.mpr ⟨tr, hr, rfl⟩⟩,
      bind_eq_ok_iff.mpr ⟨tl', hl', bind_eq_ok_iff.mpr ⟨tr', hr', rfl⟩⟩, .binary op hrl hrr⟩
  | nested e ih =>
    obtain ⟨x, hx, h⟩ := bind_eq_ok_iff.mp h
    cases h
    obtain ⟨t, t', ht, ht', htt⟩ := ih hx
    exact ⟨_, _, bind_eq_ok_iff.mpr ⟨t, ht, rfl⟩, bind_eq_ok_iff.mpr ⟨t', ht', rfl⟩, .nested htt⟩
  | call name args =>
    have hnameless := nameless_of_qualifyExpr h
    obtain ⟨xs, hxs, h⟩ := bind_eq_ok_iff.mp h
    cases h
    exact ⟨_, _, rfl, rfl, .call hnameless⟩

/-- **Cutting a condition apart and putting it together again cannot be seen.**  The condition that
comes back is bound exactly if the first one is, with the same error if it is not, and evaluates
to the same on every row, errors included.  In a join of tables whose names differ in canonical
form the same holds if the references are brought into full form before: the values are the same,
and errors differ at most in the column names they show. -/
theorem rejoined_means_the_same (e : Expr) :
    (∃ e', Conjuncts.rejoined e = some e' ∧ ∀ s : Scope, s.meaning e' = s.meaning e) ∧
      ∀ (tables : List (String × List String)) (q : Expr),
        (tables.map fun t => Name.canonical t.1).Nodup →
        (joined (tables.map fun t => .named t.1 t.2)).qualifyExpr e = .ok q →
        ∃ q' t t', Conjuncts.rejoined q = some q' ∧
          (joined (tables.map fun t => .named t.1 t.2)).bind e = .ok t ∧
          (joined (tables.map fun t => .named t.1 t.2)).bind q' = .ok t' ∧
          ∀ row, Rows.Agree (Term.passes (some t) row) (Term.passes (some t') row) := by
  refine ⟨exists_rejoined e, ?_⟩
  intro tables q hnames hq
  obtain ⟨t, u, ht, hu, hrelabelled⟩ := relabelled_of_qualifyExpr (regular_named hnames) hq
  obtain ⟨q', hq', hmeaning⟩ := exists_rejoined q
  have hbound := hmeaning (joined (tables.map fun t => .named t.1 t.2))
  simp only [meaning, hu, ok_bind, pure_eq_ok] at hbound
  obtain ⟨t', ht', hpasses⟩ := bind_eq_ok_iff.mp hbound
  have hsame : (fun row => Term.passes (some t') row) = fun row => Term.passes (some u) row :=
    Except.ok.inj hpasses
  refine ⟨q', t, t', hq', ht, ht', ?_⟩
  intro row
  rw [show Term.passes (some t') row = Term.passes (some u) row from congrFun hsame row]
  exact hrelabelled.holds row

namespace Sample

def tables : List (String × List String) :=
  [("t", ["a", "b"]), ("u", ["c"])]

/-- The condition `a = 1 AND (b < c AND c)`, grouped as its parentheses show, but without them.  Its
last conjunct is a column. -/
def condition : Expr :=
  .binary (.binary (.column { column := "a" }) .equal (.literal (.integer 1))) .and
    (.binary (.binary (.column { column := "b" }) .less (.column { column := "c" })) .and
      (.column { column := "c" }))

def inFull : Expr :=
  .binary (.binary (.column { table := some "t", column := "a" }) .equal (.literal (.integer 1)))
    .and (.binary (.binary (.column { table := some "t", column := "b" }) .less
      (.column { table := some "u", column := "c" })) .and
      (.column { table := some "u", column := "c" }))

end Sample

theorem rejoined_means_the_same_sample :
    ((Sample.tables.map fun t => Name.canonical t.1).Nodup ∧
      (joined (Sample.tables.map fun t => .named t.1 t.2)).qualifyExpr Sample.condition =
        .ok Sample.inFull) ∧
      ∃ q' t t', Conjuncts.rejoined Sample.inFull = some q' ∧
        (joined (Sample.tables.map fun t => .named t.1 t.2)).bind Sample.condition = .ok t ∧
        (joined (Sample.tables.map fun t => .named t.1 t.2)).bind q' = .ok t' ∧
        ∀ row, Rows.Agree (Term.passes (some t) row) (Term.passes (some t') row) := by
  have hnames : (Sample.tables.map fun t => Name.canonical t.1).Nodup := by decide +kernel
  have hfull : (joined (Sample.tables.map fun t => .named t.1 t.2)).qualifyExpr Sample.condition =
      .ok Sample.inFull := by rfl
  exact ⟨⟨hnames, hfull⟩,
    (rejoined_means_the_same Sample.condition).2 Sample.tables Sample.inFull hnames hfull⟩

end Scope

end FlatQuery
