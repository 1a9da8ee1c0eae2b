import FlatQuery.Rows.Term
import FlatQuery.Catalog.Error

/-!
What can go wrong when rows are bound, read and computed with.
-/

namespace FlatQuery.Rows

/-- Why a stream of rows could not be set up or could not go on. -/
inductive Error where
  /-- The table to read from is not known. -/
  | catalog (cause : Catalog.Error)
  /-- No column has the name. -/
  | unknownColumn (name : String)
  /-- Several tables have a column of the name. -/
  | ambiguousColumn (name : String)
  /-- A field or a string that does not write an integer in range. -/
  | notInteger (value : String)
  /-- A product outside the range of integers. -/
  | productOverflow (left right : Int)
  /-- A sum outside the range of integers. -/
  | sumOverflow (argument : Term)
  /-- A term that is not a condition stands where one is needed. -/
  | notCondition (t : Term)
  /-- A term that is not an operand stands on a side of a comparison. -/
  | notOperand (t : Term)
  /-- A term that cannot be summed. -/
  | notSummand (t : Term)
  /-- A row without a field at an index. -/
  | indexOutOfRange (index width : Nat)
  /-- A file could not be read or written. -/
  | file (path : String) (cause : Files.Error)
  deriving DecidableEq, Repr, Inhabited

namespace Error

def message : Error → String
  | catalog cause => "catalog error: " ++ cause.message
  | unknownColumn name => "unknown column: " ++ name
  | ambiguousColumn name => "ambiguous column: " ++ name
  | notInteger value => "type coercion failed: '" ++ value ++ "' is not an integer"
  | productOverflow l r =>
    "type coercion failed: integer overflow in " ++ toString l ++ " * " ++ toString r
  | sumOverflow t => "type coercion failed: integer overflow summing " ++ t.text
  | notCondition t => "malformed expression: expected a boolean condition, got: " ++ t.text
  | notOperand t => "malformed expression: expected an integer operand, got: " ++ t.text
  | notSummand t => "unsupported expression: unsupported SUM argument: " ++ t.text
  | indexOutOfRange index width =>
    "tuple index " ++ toString index ++ " out of range for tuple of " ++ toString width ++ " fields"
  | file path cause => "io error on " ++ path ++ ": " ++ cause.message

/-- Whether the error says that a column could not be found. -/
def isUnresolved : Error → Bool
  | unknownColumn _ => true
  | ambiguousColumn _ => true
  | _ => false

end Error

end FlatQuery.Rows
