import FlatQuery.Proofs.Query.Truth

/-!
# The grammar of conditions

Which terms are conditions (`Term.IsCondition`), what their operands stand for over a row
(`Term.Denotes`) and when they are true (`Term.IsTrue`), said without evaluating anything.
Evaluation comes to the parts of a term one after the other (`Term.parts`): the operands of its
comparisons, and the terms that are no conditions though they stand where one is needed.  A term
has a value exactly if it is a condition whose operands all stand for integers, whatever the
connectives between them (`exists_holds_iff`), and the value is its truth (`isTrue_of_holds`);
otherwise the error is that of the leftmost part that fails (`holds_eq_error_iff`).
-/

namespace FlatQuery

open Outcome
open Rows (Error)

/-- Of two steps one fails: the first, or the second after the first has succeeded. -/
theorem Outcome.both_eq_error_iff {ε α β γ : Type} {x : Except ε α} {y : Except ε β}
    {f : α → β → γ} {e : ε} : (x >>= fun a => y >>= fun b => pure (f a b)) = .error e ↔
      x = .error e ∨ (∃ a, x = .ok a) ∧ y = .error e := by
  simp [bind_eq_error_iff]

/-! ### Integers of texts and fields -/

namespace Row

variable {s : String} {n : Int} {e : Error} {row : Row} {i : Nat}

theorem integer_eq_ok_iff : Row.integer s = .ok n ↔ Integer.ofField? s = some n := by
  rw [← toOption_eq_some_iff, toOption_integer]

theorem integer_eq_error_iff :
    Row.integer s = .error e ↔ Integer.ofField? s = none ∧ e = .notInteger s := by
  unfold Row.integer
  cases Integer.ofField? s with
  | none => simp [eq_comm]
  | some n => simp

theorem get_eq_ok_iff : row.get i = .ok s ↔ row.fields[i]? = some s := by
  rw [← toOption_eq_some_iff, toOption_get]

theorem get_eq_error_iff :
    row.get i = .error e ↔ row.fields[i]? = none ∧ e = .indexOutOfRange i row.width := by
  unfold Row.get
  cases row.fields[i]? with
  | none => simp [eq_comm]
  | some s => simp

end Row

/-! ### Operands and conditions -/

namespace BinaryOp

/-- What a comparison says of two integers. -/
def Relates : BinaryOp → Int → Int → Prop
  | equal, a, b => a = b
  | notEqual, a, b => a ≠ b
  | less, a, b => a < b
  | atMost, a, b => a ≤ b
  | greater, a, b => b < a
  | atLeast, a, b => b ≤ a
  | _, _, _ => False

inductive Compares : BinaryOp → Prop
  | equal : Compares equal
  | notEqual : Compares notEqual
  | less : Compares less
  | atMost : Compares atMost
  | greater : Compares greater
  | atLeast : Compares atLeast

theorem compares_iff {op : BinaryOp} : op.Compares ↔ op.comparison?.isSome := by
  constructor
  · intro h
    cases h <;> rfl
  · intro h
    cases op <;> first | constructor | cases h

theorem relates_iff {op : BinaryOp} {relation : Int → Int → Bool}
    (h : op.comparison? = some relation) (a b : Int) : relation a b = true ↔ op.Relates a b := by
  cases op <;> cases h <;> simp [Relates]

theorem kinds (op : BinaryOp) : (∃ join, op.connective? = some join) ∨
    (op.connective? = none ∧ ∃ relation, op.comparison? = some relation) ∨
    (op.connective? = none ∧ op.comparison? = none) := by
  cases op <;> simp [connective?, comparison?]

end BinaryOp

namespace Term

/-- Literals, columns, and operands between parentheses. -/
inductive IsOperand : Term → Prop
  | literal (v : Literal) : IsOperand (literal v)
  | field (i : Nat) (label : String) : IsOperand (field i label)
  | nested {t : Term} : IsOperand t → IsOperand (nested t)

/-- Comparisons of two operands, AND and OR of two conditions, and conditions between
parentheses. -/
inductive IsCondition : Term → Prop
  | comparison {l r : Term} {op : BinaryOp} :
      op.Compares → IsOperand l → IsOperand r → IsCondition (binary l op r)
  | and {l r : Term} : IsCondition l → IsCondition r → IsCondition (binary l .and r)
  | or {l r : Term} : IsCondition l → IsCondition r → IsCondition (binary l .or r)
  | nested {t : Term} : IsCondition t → IsCondition (nested t)

/-- The integer that an operand stands for over a row: an integer literal stands for itself, a
string and a field that is there for the integer they write. -/
inductive Denotes (row : Row) : Term → Int → Prop
  | integer (n : Int) : Denotes row (literal (.integer n)) n
  | string {s : String} {n : Int} :
      Integer.ofField? s = some n → Denotes row (literal (.string s)) n
  | field {i : Nat} {s : String} {n : Int} (label : String) :
      row.fields[i]? = some s → Integer.ofField? s = some n → Denotes row (field i label) n
  | nested {t : Term} {n : Int} : Denotes row t n → Denotes row (nested t) n

/-- The operands of a condition, from left to right. -/
def operands : Term → List Term
  | nested t => t.operands
  | binary l .and r => l.operands ++ r.operands
  | binary l .or r => l.operands ++ r.operands
  | binary l _ r => [l, r]
  | _ => []

/-- That a condition is true of a row. -/
def IsTrue (row : Row) : Term → Prop
  | nested t => t.IsTrue row
  | binary l .and r => l.IsTrue row ∧ r.IsTrue row
  | binary l .or r => l.IsTrue row ∨ r.IsTrue row
  | binary l op r => ∃ a b, l.Denotes row a ∧ r.Denotes row b ∧ op.Relates a b
  | _ => False

/-! ### The parts that evaluation comes to -/

/-- A part of a term that is evaluated at once. -/
inductive Part where
  /-- A side of a comparison. -/
  | operand (t : Term)
  /-- What stands where a condition is needed, and is neither a comparison nor made of
  conditions. -/
  | misplaced (t : Term)

/-- The parts of a term, in the order in which they are evaluated. -/
def parts : Term → List Part
  | nested t => t.parts
  | binary l op r =>
    match op with
    | .and | .or => l.parts ++ r.parts
    | .plus | .minus | .times | .divide => [.misplaced (binary l op r)]
    | _ => [.operand l, .operand r]
  | t => [.misplaced t]

/-- That a part fails over a row, and with which error. -/
inductive Part.Fails (row : Row) : Part → Error → Prop
  | string {s : String} :
      Integer.ofField? s = none → Fails row (operand (.literal (.string s))) (.notInteger s)
  | absent {i : Nat} (label : String) : row.fields[i]? = none →
      Fails row (operand (.field i label)) (.indexOutOfRange i row.width)
  | field {i : Nat} {s : String} (label : String) : row.fields[i]? = some s →
      Integer.ofField? s = none → Fails row (operand (.field i label)) (.notInteger s)
  | nested {t : Term} {e : Error} :
      Fails row (operand t) e → Fails row (operand (.nested t)) e
  | binary (l : Term) (op : BinaryOp) (r : Term) :
      Fails row (operand (.binary l op r)) (.notOperand (.binary l op r))
  | call (text : String) : Fails row (operand (.call text)) (.notOperand (.call text))
  | misplaced (t : Term) : Fails row (misplaced t) (.notCondition t)

/-- That the first of the parts that fail does so with an error. -/
def Part.LeftmostFails (row : Row) (ps : List Part) (e : Error) : Prop :=
  ∃ before part after, ps = before ++ part :: after ∧
    (∀ p ∈ before, ∀ e', ¬ p.Fails row e') ∧ part.Fails row e

variable {row : Row} {t l r : Term} {n : Int} {e : Error} {b : Bool}

/-! ### Operands -/

theorem operand_eq_ok_iff : t.operand row = .ok n ↔ t.Denotes row n := by
  -- by the shape of the term: operations and calls are no operands, so both sides are false there
  induction t with
  | literal v =>
    cases v with
    | integer k =>
      constructor
      · intro h
        cases h
        exact .integer _
      · intro h
        cases h
        rfl
    | string s =>
      refine Iff.trans Row.integer_eq_ok_iff ⟨.string, ?_⟩
      intro h
      cases h with
      | string hs => exact hs
  | field i label =>
    simp only [operand, bind_eq_ok_iff, Row.get_eq_ok_iff, Row.integer_eq_ok_iff]
    constructor
    · rintro ⟨s, hs, hn⟩
      exact .field label hs hn
    · intro h
      cases h with
      | field _ hs hn => exact ⟨_, hs, hn⟩
  | nested t ih =>
    refine Iff.trans ih ⟨.nested, ?_⟩
    intro h
    cases h with
    | nested ht => exact ht
  | binary l op r _ _ =>
    constructor
    · intro h
      cases h
    · intro h
      cases h
  | call text =>
    constructor
    · intro h
      cases h
    · intro h
      cases h

theorem operand_eq_error_iff : t.operand row = .error e ↔ (Part.operand t).Fails row e := by
  induction t with
  | literal v =>
    cases v with
    | integer k =>
      constructor
      · intro h
        cases h
      · intro h
        cases h
    | string s =>
      refine Iff.trans Row.integer_eq_error_iff ⟨?_, ?_⟩
      · rintro ⟨hs, rfl⟩
        exact .string hs
      · intro h
        cases h with
        | string hs => exact ⟨hs, rfl⟩
  | field i label =>
    simp only [operand, bind_eq_error_iff, Row.get_eq_ok_iff, Row.get_eq_error_iff,
      Row.integer_eq_error_iff]
    constructor
    · rintro (⟨hs, rfl⟩ | ⟨s, hs, hn, rfl⟩)
      · exact .absent label hs
      · exact .field label hs hn
    · intro h
      cases h with
      | absent _ hs => exact .inl ⟨hs, rfl⟩
      | field _ hs hn => exact .inr ⟨_, hs, hn, rfl⟩
  | nested t ih =>
    refine Iff.trans ih ⟨.nested, ?_⟩
    intro h
    cases h with
    | nested ht => exact ht
  | binary l op r _ _ =>
    constructor
    · intro h
      cases h
      exact .binary l op r
    · intro h
      cases h
      rfl
  | call text =>
    constructor
    · intro h
      cases h
      exact .call text
    · intro h
      cases h
      rfl

theorem Denotes.isOperand (h : t.Denotes row n) : t.IsOperand := by
  induction h with
  | integer n => exact .literal _
  | string _ => exact .literal _
  | field label _ _ => exact .field _ label
  | nested _ ih => exact .nested ih

theorem Denotes.unique {m : Int} (h : t.Denotes row n) (h' : t.Denotes row m) : n = m :=
  Except.ok.inj ((operand_eq_ok_iff.mpr h).symm.trans (operand_eq_ok_iff.mpr h'))

theorem exists_denotes_iff :
    (∃ n, t.Denotes row n) ↔ ∀ e, ¬ (Part.operand t).Fails row e := by
  simp only [← operand_eq_ok_iff, ← operand_eq_error_iff]
  cases t.operand row with
  | error e => simp
  | ok n => simp

/-! ### Conditions that have a value -/

section Connective

variable {op : BinaryOp} {join : Bool → Bool → Bool} (hj : op.connective? = some join)
include hj

theorem holds_connected : (binary l op r).holds row =
    (l.holds row >>= fun a => r.holds row >>= fun b => pure (join a b)) := by
  rw [holds, hj]

theorem operands_connected : (binary l op r).operands = l.operands ++ r.operands := by
  cases op <;> first | rfl | cases hj

theorem parts_connected : (binary l op r).parts = l.parts ++ r.parts := by
  cases op <;> first | rfl | cases hj

theorem isCondition_connected_iff :
    (binary l op r).IsCondition ↔ l.IsCondition ∧ r.IsCondition := by
  constructor
  · intro h
    cases h with
    | comparison ho _ _ => cases ho <;> cases hj
    | and hl hr => exact ⟨hl, hr⟩
    | or hl hr => exact ⟨hl, hr⟩
  · rintro ⟨hl, hr⟩
    cases op with
    | and => exact .and hl hr
    | or => exact .or hl hr
    | _ => cases hj

theorem isTrue_connected_iff {a b : Bool} (ha : a = true ↔ l.IsTrue row)
    (hb : b = true ↔ r.IsTrue row) : join a b = true ↔ (binary l op r).IsTrue row := by
  cases op with
  | and =>
    cases hj
    rw [Bool.and_eq_true, ha, hb, IsTrue]
  | or =>
    cases hj
    rw [Bool.or_eq_true, ha, hb, IsTrue]
  | _ => cases hj

end Connective

section Comparison

variable {op : BinaryOp} {relation : Int → Int → Bool} (hc : op.connective? = none)
include hc

theorem holds_comparison (hr : op.comparison? = some relation) : (binary l op r).holds row =
    (l.operand row >>= fun a => r.operand row >>= fun b => pure (relation a b)) := by
  rw [holds, hc, hr]

theorem holds_arithmetic (hr : op.comparison? = none) :
    (binary l op r).holds row = .error (.notCondition (binary l op r)) := by
  rw [holds, hc, hr]

theorem operands_unconnected : (binary l op r).operands = [l, r] := by
  cases op <;> first | rfl | cases hc

theorem isTrue_unconnected_iff : (binary l op r).IsTrue row ↔
    ∃ a b, l.Denotes row a ∧ r.Denotes row b ∧ op.Relates a b := by
  cases op <;> first | exact Iff.rfl | cases hc

theorem parts_arithmetic (hr : op.comparison? = none) :
    (binary l op r).parts = [.misplaced (binary l op r)] := by
  cases op <;> first | rfl | (cases hr; done) | cases hc

theorem isCondition_unconnected_iff :
    (binary l op r).IsCondition ↔ op.Compares ∧ l.IsOperand ∧ r.IsOperand := by
  constructor
  · intro h
    cases h with
    | comparison ho hl hr => exact ⟨ho, hl, hr⟩
    | and _ _ => cases hc
    | or _ _ => cases hc
  · rintro ⟨ho, hl, hr⟩
    exact .comparison ho hl hr

end Comparison

theorem parts_comparison {op : BinaryOp} {relation : Int → Int → Bool}
    (hr : op.comparison? = some relation) :
    (binary l op r).parts = [.operand l, .operand r] := by
  cases op <;> first | rfl | cases hr

theorem isCondition_nested_iff : (nested t).IsCondition ↔ t.IsCondition := by
  constructor
  · intro h
    cases h with
    | nested ht => exact ht
  · exact .nested

/-- A condition has a value exactly if each of its operands has one. -/
theorem exists_holds_iff : (∃ b, t.holds row = .ok b) ↔
    t.IsCondition ∧ ∀ o ∈ t.operands, ∃ n, o.Denotes row n := by
  induction t with
  | literal v => exact iff_of_false nofun fun h => nomatch h.1
  | field i label => exact iff_of_false nofun fun h => nomatch h.1
  | call text => exact iff_of_false nofun fun h => nomatch h.1
  | nested t ih => exact Iff.trans ih (and_congr_left' isCondition_nested_iff.symm)
  | binary l op r ihl ihr =>
    rcases op.kinds with ⟨join, hj⟩ | ⟨hc, relation, hr⟩ | ⟨hc, hr⟩
    · rw [holds_connected hj, exists_bind_iff fun _ => exists_bind_pure_iff, ihl, ihr,
        isCondition_connected_iff hj, operands_connected hj, List.forall_mem_append,
        and_and_and_comm]
    · have hcompares : op.Compares := BinaryOp.compares_iff.mpr (Option.isSome_of_eq_some hr)
      rw [holds_comparison hc hr, exists_bind_iff fun _ => exists_bind_pure_iff,
        isCondition_unconnected_iff hc, operands_unconnected hc]
      simp only [operand_eq_ok_iff, List.forall_mem_cons, List.not_mem_nil, false_imp_iff,
        implies_true, and_true, hcompares, true_and]
      constructor
      · rintro ⟨⟨a, ha⟩, b, hb⟩
        exact ⟨⟨ha.isOperand, hb.isOperand⟩, ⟨a, ha⟩, b, hb⟩
      · exact And.right
    · rw [holds_arithmetic hc hr, isCondition_unconnected_iff hc, BinaryOp.compares_iff, hr]
      exact iff_of_false nofun fun h => nomatch h.1.1

theorem isTrue_of_holds (h : t.holds row = .ok b) : b = true ↔ t.IsTrue row := by
  induction t generalizing b with
  | literal v => cases h
  | field i label => cases h
  | call text => cases h
  | nested t ih => exact ih h
  | binary l op r ihl ihr =>
    rcases op.kinds with ⟨join, hj⟩ | ⟨hc, relation, hr⟩ | ⟨hc, hr⟩
    · rw [holds_connected hj] at h
      obtain ⟨x, hx, h⟩ := bind_eq_ok_iff.mp h
      obtain ⟨y, hy, h⟩ := bind_eq_ok_iff.mp h
      cases h
      exact isTrue_connected_iff hj (ihl hx) (ihr hy)
    · rw [holds_comparison hc hr] at h
      obtain ⟨x, hx, h⟩ := bind_eq_ok_iff.mp h
      obtain ⟨y, hy, h⟩ := bind_eq_ok_iff.mp h
      cases h
      rw [BinaryOp.relates_iff hr, isTrue_unconnected_iff hc]
      rw [operand_eq_ok_iff] at hx hy
      constructor
      · exact fun hxy => ⟨x, y, hx, hy, hxy⟩
      · rintro ⟨a, b, ha, hb, hab⟩
        rwa [hx.unique ha, hy.unique hb]
    · rw [holds_arithmetic hc hr] at h
      cases h

/-! ### Conditions that fail -/

namespace Part

variable {ps qs : List Part} {p : Part}

/-- Of some parts and then others, the leftmost that fails is one of the first or, if all of these
are fine, of the others. -/
theorem leftmostFails_append : LeftmostFails row (ps ++ qs) e ↔
    LeftmostFails row ps e ∨ (∀ p ∈ ps, ∀ e', ¬ p.Fails row e') ∧ LeftmostFails row qs e := by
  constructor
  · rintro ⟨before, part, after, heq, hbefore, hpart⟩
    rcases List.append_eq_append_iff.mp heq with ⟨middle, rfl, rfl⟩ | ⟨middle, rfl, hmiddle⟩
    · exact .inr ⟨fun p hp => hbefore p (List.mem_append_left _ hp), middle, part, after, rfl,
        fun p hp => hbefore p (List.mem_append_right _ hp), hpart⟩
    · cases middle with
      | nil =>
        refine .inr ⟨fun p hp => hbefore p (List.append_nil before ▸ hp), [], part, after,
          hmiddle.symm, nofun, hpart⟩
      | cons m middle =>
        cases hmiddle
        exact .inl ⟨before, _, middle, rfl, hbefore, hpart⟩
  · rintro (⟨before, part, after, rfl, hbefore, hpart⟩ |
      ⟨hps, before, part, after, rfl, hbefore, hpart⟩)
    · exact ⟨before, part, after ++ qs, List.append_assoc _ _ _, hbefore, hpart⟩
    · exact ⟨ps ++ before, part, after, (List.append_assoc _ _ _).symm,
        List.forall_mem_append.mpr ⟨hps, hbefore⟩, hpart⟩

theorem leftmostFails_singleton : LeftmostFails row [p] e ↔ p.Fails row e := by
  constructor
  · rintro ⟨before, part, after, heq, -, hpart⟩
    obtain ⟨rfl, hp⟩ | ⟨-, hp⟩ := List.append_eq_singleton_iff.mp heq.symm
    · cases hp
      exact hpart
    · cases hp
  · exact fun h => ⟨[], p, [], rfl, nofun, h⟩

end Part

/-- A term has a value as a condition exactly if none of its parts fails. -/
theorem exists_holds_iff_parts :
    (∃ b, t.holds row = .ok b) ↔ ∀ p ∈ t.parts, ∀ e, ¬ p.Fails row e := by
  induction t with
  | literal v => exact iff_of_false nofun fun h => h _ (List.mem_singleton_self _) _ (.misplaced _)
  | field i label =>
    exact iff_of_false nofun fun h => h _ (List.mem_singleton_self _) _ (.misplaced _)
  | call text =>
    exact iff_of_false nofun fun h => h _ (List.mem_singleton_self _) _ (.misplaced _)
  | nested t ih => exact ih
  | binary l op r ihl ihr =>
    rcases op.kinds with ⟨join, hj⟩ | ⟨hc, relation, hr⟩ | ⟨hc, hr⟩
    · rw [holds_connected hj, exists_bind_iff fun _ => exists_bind_pure_iff, ihl, ihr,
        parts_connected hj, List.forall_mem_append]
    · rw [holds_comparison hc hr, exists_bind_iff fun _ => exists_bind_pure_iff,
        parts_comparison hr]
      simp only [operand_eq_ok_iff, exists_denotes_iff, List.forall_mem_cons, List.not_mem_nil,
        false_imp_iff, implies_true, and_true]
    · rw [holds_arithmetic hc hr, parts_arithmetic hc hr]
      exact iff_of_false nofun fun h => h _ (List.mem_singleton_self _) _ (.misplaced _)

theorem misplaced_iff : (Except.error (.notCondition t) : Except Error Bool) = .error e ↔
    Part.LeftmostFails row [.misplaced t] e := by
  rw [Part.leftmostFails_singleton]
  constructor
  · intro h
    cases h
    exact .misplaced t
  · intro h
    cases h
    rfl

/-- The error of a condition is that of the leftmost part that fails. -/
theorem holds_eq_error_iff : t.holds row = .error e ↔ Part.LeftmostFails row t.parts e := by
  induction t with
  | literal v => exact misplaced_iff
  | field i label => exact misplaced_iff
  | call text => exact misplaced_iff
  | nested t ih => exact ih
  | binary l op r ihl ihr =>
    rcases op.kinds with ⟨join, hj⟩ | ⟨hc, relation, hr⟩ | ⟨hc, hr⟩
    · rw [holds_connected hj, both_eq_error_iff, ihl, ihr, exists_holds_iff_parts,
        parts_connected hj, Part.leftmostFails_append]
    · rw [holds_comparison hc hr, both_eq_error_iff, parts_comparison hr]
      show _ ↔ Part.LeftmostFails row ([.operand l] ++ [.operand r]) e
      rw [Part.leftmostFails_append, Part.leftmostFails_singleton, Part.leftmostFails_singleton,
        List.forall_mem_singleton, operand_eq_error_iff, operand_eq_error_iff, ← exists_denotes_iff]
      simp only [operand_eq_ok_iff]
    · rw [holds_arithmetic hc hr, parts_arithmetic hc hr]
      exact misplaced_iff

/-- **Evaluation accepts the conditions and nothing else.**  Over a row a term has a truth value
exactly if it is a condition and every operand in it stands for an integer, on both sides of each
AND and OR; the value says then whether the condition is true of those integers.  Otherwise the
error is that of the leftmost part that fails, in the order in which the parts are evaluated. -/
theorem passes_exactly_conditions (t : Term) (row : Row) :
    (∀ b, passes (some t) row = .ok b ↔
      t.IsCondition ∧ (∀ o ∈ t.operands, ∃ n, o.Denotes row n) ∧ (b = true ↔ t.IsTrue row)) ∧
      ∀ e, passes (some t) row = .error e ↔ Part.LeftmostFails row t.parts e := by
  refine ⟨?_, fun e => holds_eq_error_iff⟩
  intro b
  rw [← and_assoc, ← exists_holds_iff, passes]
  constructor
  · exact fun h => ⟨⟨b, h⟩, isTrue_of_holds h⟩
  · rintro ⟨⟨b', h⟩, hb⟩
    rwa [Bool.eq_iff_iff.mpr (hb.trans (isTrue_of_holds h).symm)]

end Term

end FlatQuery
