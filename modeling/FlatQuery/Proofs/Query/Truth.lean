import FlatQuery.Proofs.Outcome
import FlatQuery.Proofs.Text.Integer
import FlatQuery.Rows.Evaluate

/-!
# What a condition means

A condition is true or false, or has no value, depending only on the values of the columns it
mentions (`Expr.truth`).  Bound in a scope and evaluated over a row, it has the truth that the
fields of the row give it (`toOption_holds`); so two scopes that give the columns of a condition the
same values agree on the condition (`truth_congr`).  What is said of a conjunction is said of each
of its conjuncts (`Conjunctive`).
-/

namespace FlatQuery

open Outcome

namespace Expr

@[elab_as_elim]
theorem shallow {motive : Expr → Prop} (column : ∀ c, motive (.column c))
    (literal : ∀ v, motive (.literal v))
    (binary : ∀ l op r, motive l → motive r → motive (.binary l op r))
    (nested : ∀ e, motive e → motive (.nested e))
    (call : ∀ name args, motive (.call name args)) : ∀ e, motive e
  | .column c => column c
  | .literal v => literal v
  | .binary l op r =>
    binary l op r (shallow column literal binary nested call l)
      (shallow column literal binary nested call r)
  | .nested e => nested e (shallow column literal binary nested call e)
  | .call name args => call name args

/-! ### Truth by the values of columns -/

/-- The integer of a side of a comparison, given the fields that columns stand for. -/
def number (value : ColumnRef → Option String) : Expr → Option Int
  | column c => (value c).bind Integer.ofField?
  | literal v => v.value.toOption
  | nested e => e.number value
  | _ => none

/-- The integer that SUM adds: a product of literals and columns, however large. -/
def amount (value : ColumnRef → Option String) : Expr → Option Int
  | column c => (value c).bind Integer.ofField?
  | literal v => v.value.toOption
  | nested e => e.amount value
  | binary l .times r => (l.amount value).bind fun a => (r.amount value).map (a * ·)
  | _ => none

/-- The truth of a condition, given the fields that columns stand for. -/
def truth (value : ColumnRef → Option String) : Expr → Option Bool
  | nested e => e.truth value
  | binary l op r =>
    match op.connective?, op.comparison? with
    | some join, _ => (l.truth value).bind fun a => (r.truth value).map (join a)
    | none, some relation => (l.number value).bind fun a => (r.number value).map (relation a)
    | none, none => none
  | _ => none

variable {v w : ColumnRef → Option String}

theorem number_congr {e : Expr} (h : ∀ c ∈ e.columns, v c = w c) : e.number v = e.number w := by
  induction e using shallow with
  | column c => rw [number, number, h c (List.mem_singleton_self c)]
  | literal u => rfl
  | binary l op r ihl ihr => rfl
  | nested e ih => exact ih h
  | call name args => rfl

/-- The truth of a condition depends on the values of its columns only. -/
theorem truth_congr {e : Expr} (h : ∀ c ∈ e.columns, v c = w c) : e.truth v = e.truth w := by
  induction e using shallow with
  | column c => rfl
  | literal u => rfl
  | binary l op r ihl ihr =>
    have hl : ∀ c ∈ l.columns, v c = w c := fun c hc => h c (List.mem_append_left _ hc)
    have hr : ∀ c ∈ r.columns, v c = w c := fun c hc => h c (List.mem_append_right _ hc)
    simp only [truth, ihl hl, ihr hr, number_congr hl, number_congr hr]
  | nested e ih => exact ih h
  | call name args => rfl

/-! ### Conjunctions -/

/-- A property that a conjunction has exactly if both of its sides have it. -/
def Conjunctive (P : Expr → Prop) : Prop :=
  ∀ l r, P (binary l .and r) ↔ P l ∧ P r

theorem conjunctive_columns (P : ColumnRef → Prop) : Conjunctive fun e => ∀ c ∈ e.columns, P c :=
  fun _ _ => List.forall_mem_append

theorem truth_and (l r : Expr) :
    (binary l .and r).truth v = (l.truth v).bind fun a => (r.truth v).map (a && ·) := rfl

theorem conjunctive_true : Conjunctive fun e => e.truth v = some true := by
  intro l r
  simp only [truth_and]
  rcases l.truth v with _ | a
  · simp
  · rcases r.truth v with _ | b
    · simp
    · simp

theorem conjunctive_defined : Conjunctive fun e => (e.truth v).isSome := by
  intro l r
  simp only [truth_and]
  rcases l.truth v with _ | a
  · simp
  · simp

theorem Conjunctive.iff_conjuncts {P : Expr → Prop} (hP : Conjunctive P) (e : Expr) :
    P e ↔ ∀ c ∈ e.conjuncts, P c := by
  induction e using shallow with
  | column c => simp only [conjuncts, List.forall_mem_singleton]
  | literal u => simp only [conjuncts, List.forall_mem_singleton]
  | binary l op r ihl ihr =>
    cases op with
    | and => rw [hP, ihl, ihr, conjuncts, List.forall_mem_append]
    | _ => simp only [conjuncts, List.forall_mem_singleton]
  | nested e ih => simp only [conjuncts, List.forall_mem_singleton]
  | call name args => simp only [conjuncts, List.forall_mem_singleton]

theorem Conjunctive.iff_conjunction {P : Expr → Prop} (hP : Conjunctive P) {es : List Expr}
    {e : Expr} (h : conjunction? es = some e) : P e ↔ ∀ c ∈ es, P c := by
  have hfold : ∀ (es : List Expr) (acc : Expr),
      P (es.foldl (fun acc next => binary acc .and next) acc) ↔ P acc ∧ ∀ c ∈ es, P c := by
    intro es
    induction es with
    | nil => simp
    | cons c es ih =>
      intro acc
      rw [List.foldl_cons, ih, hP, List.forall_mem_cons, and_assoc]
  cases es with
  | nil => cases h
  | cons c es =>
    cases h
    rw [hfold, List.forall_mem_cons]

end Expr

/-! ### Conditions over rows -/

theorem Row.toOption_get (row : Row) (i : Nat) : (row.get i).toOption = row.fields[i]? := by
  unfold Row.get
  cases row.fields[i]? with
  | none => rfl
  | some field => rfl

theorem Row.toOption_integer (s : String) : (Row.integer s).toOption = Integer.ofField? s := by
  unfold Row.integer
  cases Integer.ofField? s with
  | none => rfl
  | some n => rfl

namespace Scope

/-- The field of a row that a reference means. -/
def value (s : Scope) (row : Row) (c : ColumnRef) : Option String :=
  (s.resolve c).toOption.bind (row.fields[·]?)

variable {s : Scope} {row : Row}

theorem toOption_operand {e : Expr} {t : Term} (h : s.bind e = .ok t) :
    (t.operand row).toOption = e.number (s.value row) := by
  induction e using Expr.shallow generalizing t with
  | column c =>
    obtain ⟨i, hi, h⟩ := bind_eq_ok_iff.mp h
    cases h
    simp only [Term.operand, toOption_bind, Row.toOption_get, Row.toOption_integer, Expr.number,
      value, hi, toOption_ok, Option.bind_some]
  | literal u =>
    cases h
    rfl
  | binary l op r ihl ihr =>
    obtain ⟨x, hx, h⟩ := bind_eq_ok_iff.mp h
    obtain ⟨y, hy, h⟩ := bind_eq_ok_iff.mp h
    cases h
    rfl
  | nested e ih =>
    obtain ⟨x, hx, h⟩ := bind_eq_ok_iff.mp h
    cases h
    have hx' := ih hx
    exact hx'
  | call name args =>
    cases h
    rfl

/-- A bound condition has the truth that the fields of the row give it. -/
theorem toOption_holds {e : Expr} {t : Term} (h : s.bind e = .ok t) :
    (t.holds row).toOption = e.truth (s.value row) := by
  induction e using Expr.shallow generalizing t with
  | column c =>
    obtain ⟨i, hi, h⟩ := bind_eq_ok_iff.mp h
    cases h
    rfl
  | literal u =>
    cases h
    rfl
  | binary l op r ihl ihr =>
    obtain ⟨x, hx, h⟩ := bind_eq_ok_iff.mp h
    obtain ⟨y, hy, h⟩ := bind_eq_ok_iff.mp h
    cases h
    simp only [Term.holds, Expr.truth]
    -- connectives go on with conditions, comparisons with operands; no other operation has a truth
    cases op.connective? with
    | some join =>
      simp only [toOption_bind, ihl hx, ihr hy, pure_eq_ok, toOption_ok, Option.map_eq_bind]
      rfl
    | none =>
      cases op.comparison? with
      | some relation =>
        simp only [toOption_bind, toOption_operand hx, toOption_operand hy, pure_eq_ok,
          toOption_ok, Option.map_eq_bind]
        rfl
      | none => rfl
  | nested e ih =>
    obtain ⟨x, hx, h⟩ := bind_eq_ok_iff.mp h
    cases h
    have hx' := ih hx
    exact hx'
  | call name args =>
    cases h
    rfl

theorem amount_of_summand {e : Expr} {t : Term} {n : Int} (h : s.bind e = .ok t)
    (hn : t.summand row = .ok n) : e.amount (s.value row) = some n := by
  induction e using Expr.shallow generalizing t n with
  | column c =>
    obtain ⟨i, hi, h⟩ := bind_eq_ok_iff.mp h
    cases h
    have hopt := congrArg Except.toOption hn
    simp only [Term.summand, toOption_bind, Row.toOption_get, Row.toOption_integer] at hopt
    simp only [Expr.amount, value, hi, toOption_ok, Option.bind_some]
    exact hopt
  | literal u =>
    cases h
    exact toOption_eq_some_iff.mpr hn
  | binary l op r ihl ihr =>
    obtain ⟨x, hx, h⟩ := bind_eq_ok_iff.mp h
    obtain ⟨y, hy, h⟩ := bind_eq_ok_iff.mp h
    cases h
    cases op with
    | times =>
      obtain ⟨a, ha, hn⟩ := bind_eq_ok_iff.mp hn
      obtain ⟨b, hb, hn⟩ := bind_eq_ok_iff.mp hn
      -- the product has passed the check of its range, so it is exact
      have hmul : n = a * b := by
        split at hn
        · rename_i k hk
          cases hn
          exact (Integer.checked_eq_some_iff.mp hk).2
        · cases hn
      simp only [Expr.amount, ihl hx ha, ihr hy hb, Option.bind_some, Option.map_some, hmul]
    | _ => cases hn
  | nested e ih =>
    obtain ⟨x, hx, h⟩ := bind_eq_ok_iff.mp h
    cases h
    exact ih hx hn
  | call name args =>
    cases h
    cases hn

theorem exists_bind {e : Expr} (h : ∀ c ∈ e.columns, ∃ i, s.resolve c = .ok i) :
    ∃ t, s.bind e = .ok t := by
  induction e using Expr.shallow with
  | column c =>
    obtain ⟨i, hi⟩ := h c (List.mem_singleton_self c)
    exact ⟨_, bind_eq_ok_iff.mpr ⟨i, hi, rfl⟩⟩
  | literal u => exact ⟨_, rfl⟩
  | binary l op r ihl ihr =>
    obtain ⟨x, hx⟩ := ihl fun c hc => h c (List.mem_append_left _ hc)
    obtain ⟨y, hy⟩ := ihr fun c hc => h c (List.mem_append_right _ hc)
    exact ⟨_, bind_eq_ok_iff.mpr ⟨x, hx, bind_eq_ok_iff.mpr ⟨y, hy, rfl⟩⟩⟩
  | nested e ih =>
    obtain ⟨x, hx⟩ := ih h
    exact ⟨_, bind_eq_ok_iff.mpr ⟨x, hx, rfl⟩⟩
  | call name args => exact ⟨_, rfl⟩

end Scope

end FlatQuery
