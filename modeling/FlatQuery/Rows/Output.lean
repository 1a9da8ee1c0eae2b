import FlatQuery.Rows.Operator

/-!
Writing rows out, a line for each.  A writer may take a limited number of bytes only; the first
line that does not fit is written as far as it goes, and ends the writing.
-/

namespace FlatQuery.Rows

/-- Where rows are written to. -/
structure Writer where
  /-- How many bytes are taken in all; any number if there is none. -/
  limit : Option Nat := none
  /-- Whether the flush at the end succeeds. -/
  flushes : Bool := true
  /-- The bytes taken so far. -/
  received : List UInt8 := []
  deriving DecidableEq, Repr, Inhabited

namespace Writer

/-- Writes bytes as far as they fit, and says whether all did. -/
def write (w : Writer) (bytes : List UInt8) : Bool × Writer :=
  let all := w.received ++ bytes
  match w.limit with
  | none => (true, { w with received := all })
  | some n =>
    if all.length ≤ n then (true, { w with received := all })
    else (false, { w with received := all.take n })

def failure : Error :=
  .file "query output" .brokenPipe

end Writer

/-- The bytes of a row as a line of output. -/
def lineBytes (row : Row) : List UInt8 :=
  (row.text ++ "\n").toUTF8.data.toList

/-- Writes all rows of a machine; the answer is their number, added to `count`. -/
def Machine.writeRows {σ : Type} (m : Machine σ) (fs : Files) (w : Writer) (count : Nat) (s : σ) :
    Except Error Nat × Writer × σ :=
  match _h : m.next fs s with
  | (.error e, s') => (.error e, w, s')
  | (.ok none, s') => (if w.flushes then .ok count else .error Writer.failure, w, s')
  | (.ok (some row), s') =>
    match w.write (lineBytes row) with
    | (true, w') => m.writeRows fs w' (count + 1) s'
    | (false, w') => (.error Writer.failure, w', s')
  termination_by m.size fs s
  decreasing_by exact m.size_next _ _ _ _ (by assumption)

/-- Writes the rows still to come, a line for each. -/
def Cursor.write (fs : Files) (w : Writer) (c : Cursor) : Except Error Nat × Writer × Cursor :=
  let (outcome, w, state) := c.op.machine.writeRows fs w 0 c.state
  (outcome, w, ⟨c.op, state⟩)

end FlatQuery.Rows
