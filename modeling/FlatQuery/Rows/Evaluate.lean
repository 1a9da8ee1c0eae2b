import FlatQuery.Rows.Scope
import FlatQuery.Text.Integer

/-!
Evaluating terms over a row: conditions give a truth value, and what SUM adds up gives an integer.
Both sides of AND and OR are always evaluated, so an error on either side is an error of the whole.
-/

namespace FlatQuery

open Rows (Error)

/-- The relation of integers that a comparison stands for. -/
def BinaryOp.comparison? : BinaryOp → Option (Int → Int → Bool)
  | equal => some fun a b => a == b
  | notEqual => some fun a b => a != b
  | less => some fun a b => a < b
  | atMost => some fun a b => a ≤ b
  | greater => some fun a b => a > b
  | atLeast => some fun a b => a ≥ b
  | _ => none

/-- The connective of truth values that AND and OR stand for. -/
def BinaryOp.connective? : BinaryOp → Option (Bool → Bool → Bool)
  | and => some fun a b => a && b
  | or => some fun a b => a || b
  | _ => none

/-- The integer that a field writes. -/
def Row.integer (value : String) : Except Error Int :=
  match Integer.ofField? value with
  | some n => .ok n
  | none => .error (.notInteger value)

def Literal.value : Literal → Except Error Int
  | integer n => .ok n
  | string s => Row.integer s

namespace Term

def operand (row : Row) : Term → Except Error Int
  | literal v => v.value
  | field i _ => do Row.integer (← row.get i)
  | nested t => t.operand row
  | t => .error (.notOperand t)

/-- Whether a condition holds. -/
def holds (row : Row) : Term → Except Error Bool
  | nested t => t.holds row
  | binary l op r =>
    match op.connective?, op.comparison? with
    | some join, _ => do
      let a ← l.holds row
      let b ← r.holds row
      return join a b
    | none, some relation => do
      let a ← l.operand row
      let b ← r.operand row
      return relation a b
    | none, none => .error (.notCondition (binary l op r))
  | t => .error (.notCondition t)

/-- The integer that SUM adds for a row: a product of literals and fields. -/
def summand (row : Row) : Term → Except Error Int
  | literal v => v.value
  | field i _ => do Row.integer (← row.get i)
  | nested t => t.summand row
  | binary l .times r => do
    let a ← l.summand row
    let b ← r.summand row
    match Integer.mul? a b with
    | some n => .ok n
    | none => .error (.productOverflow a b)
  | t => .error (.notSummand t)

/-- Whether a row passes a condition; without one every row does. -/
def passes (condition : Option Term) (row : Row) : Except Error Bool :=
  match condition with
  | none => .ok true
  | some t => t.holds row

end Term

end FlatQuery
