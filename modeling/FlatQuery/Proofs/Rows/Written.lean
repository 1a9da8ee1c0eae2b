import FlatQuery.Proofs.Files.Lines
import FlatQuery.Proofs.Rows.Calls
import FlatQuery.Rows.Output
import FlatQuery.Rows.ResultSet

/-!
# Rows that are written

Writing rows out and collecting them are two loops over one machine, each with its own ending.  A
writer with room for the lines of all rows that the machine hands out gets them, whether or not an
error ends them (`writeRows_of_takes`); the answer is their number or that error (`Yield.count`),
and a flush that fails is met only after the last row (`Writer.conclude`).  A writer that never fails
has room for any lines (`Cursor.write_spec`).  The bytes it gets are the text of those lines
(`Writer.received_after`).
-/

namespace FlatQuery

/-! ### Lines as one text -/

namespace Text

/-- The lines as one text, a line feed after each. -/
def terminated : List String → String
  | [] => ""
  | line :: rest => line ++ "\n" ++ terminated rest

end Text

namespace Content

theorem bytes_append (s t : String) : (text (s ++ t)).bytes = (text s).bytes ++ (text t).bytes := by
  simp only [bytes, String.toUTF8_eq_toByteArray, String.toByteArray_append,
    ByteArray.data_append, Array.toList_append]

end Content

namespace Rows

open Outcome

/-! ### Writers -/

namespace Writer

/-- That a writer takes all bytes, and flushes at the end. -/
structure Unfailing (w : Writer) : Prop where
  limit : w.limit = none
  flushes : w.flushes = true

def after (w : Writer) (rows : List Row) : Writer :=
  { w with received := w.received ++ rows.flatMap lineBytes }

theorem after_nil (w : Writer) : w.after [] = w := by
  unfold after
  rw [List.flatMap_nil, List.append_nil]

theorem after_append (w : Writer) (xs ys : List Row) :
    w.after (xs ++ ys) = (w.after xs).after ys := by
  simp only [after, List.flatMap_append, List.append_assoc]

/-- That a writer has room for the lines of some rows. -/
def Takes (w : Writer) (rows : List Row) : Prop :=
  ∀ n, w.limit = some n → (w.after rows).received.length ≤ n

theorem Unfailing.takes {w : Writer} (h : w.Unfailing) (rows : List Row) : w.Takes rows := by
  intro n hn
  cases h.limit.symm.trans hn

theorem takes_iff {w : Writer} {n : Nat} (h : w.limit = some n) {rows : List Row} :
    w.Takes rows ↔ (w.after rows).received.length ≤ n := by
  constructor
  · exact fun htakes => htakes n h
  · intro hlength k hk
    obtain rfl := Option.some.inj (h.symm.trans hk)
    exact hlength

theorem takes_after_iff {w : Writer} {xs ys : List Row} :
    (w.after xs).Takes ys ↔ w.Takes (xs ++ ys) := by
  unfold Takes
  rw [after_append]
  rfl

theorem Takes.of_append {w : Writer} {xs ys : List Row} (h : w.Takes (xs ++ ys)) : w.Takes xs := by
  intro n hn
  refine le_trans ?_ (h n hn)
  rw [after_append]
  exact List.IsPrefix.length_le ⟨ys.flatMap lineBytes, rfl⟩

/-- The line of a row is written whole where there is room for it. -/
theorem write_of_takes {w : Writer} {row : Row} (h : w.Takes [row]) :
    w.write (lineBytes row) = (true, w.after [row]) := by
  have hafter : w.after [row] = { w with received := w.received ++ lineBytes row } := by
    simp only [after, List.flatMap_cons, List.flatMap_nil, List.append_nil]
  rw [hafter, write]
  cases hlimit : w.limit with
  | none => rfl
  | some n =>
    have hfits := (takes_iff hlimit).mp h
    rw [hafter] at hfits
    exact if_pos hfits

theorem received_after (w : Writer) (rows : List Row) : (w.after rows).received =
    w.received ++ (Content.text (Text.terminated (rows.map (·.text)))).bytes := by
  refine congrArg (w.received ++ ·) ?_
  induction rows with
  | nil => rfl
  | cons row rows ih =>
    rw [List.flatMap_cons, List.map_cons, Text.terminated, Content.bytes_append, ih]
    rfl

end Writer

/-! ### Writing a machine out -/

/-- The number of the rows handed out, or the error that ends them. -/
def Yield.count (y : Yield) : Except Error Nat :=
  match y.error with
  | none => .ok y.rows.length
  | some e => .error e

variable {σ : Type}

/-- The answer of a writer with room for all lines: the flush is the last that may fail. -/
def Writer.conclude (w : Writer) (y : Yield) : Except Error Nat :=
  y.count >>= fun k => if w.flushes then .ok k else .error failure

theorem Writer.conclude_cons (w : Writer) (row : Row) (y : Yield) (count : Nat) :
    (w.conclude (.cons row y)).map (count + ·) = (w.conclude y).map (count + 1 + ·) := by
  obtain ⟨rows, _ | e⟩ := y
  · simp only [conclude, Yield.count, Yield.cons, ok_bind, List.length_cons]
    cases w.flushes with
    | true => exact congrArg Except.ok (Nat.add_right_comm count rows.length 1)
    | false => rfl
  · rfl

/-- Writing out a machine: the answer counts on from where the writing began, the writer gets the
rows met on the way, and there is one call more than there are rows. -/
theorem writeRows_of_takes (m : Machine σ) (fs : Files) {w : Writer} (count : Nat) (s : σ)
    (hw : w.Takes (m.yield fs s).rows) : m.writeRows fs w count s =
      ((w.conclude (m.yield fs s)).map (count + ·), w.after (m.yield fs s).rows,
        m.after fs s ((m.yield fs s).rows.length + 1)) := by
  fun_induction m.writeRows fs w count s with
  | case1 w count s e s' hn =>
    rw [m.yield_eq_step, hn]
    simp only [Yield.ofStep, Yield.fail, w.after_nil, Machine.after_of_next hn, List.length_nil]
    rfl
  | case2 w count s s' hn =>
    rw [m.yield_eq_step, hn]
    simp only [Yield.ofStep, Yield.empty, w.after_nil, Machine.after_of_next hn, List.length_nil,
      Writer.conclude, Yield.count, ok_bind]
    cases w.flushes with
    | true => rfl
    | false => rfl
  | case3 w count s row s' hn w' hwrite ih =>
    rw [m.yield_eq_step, hn] at hw ⊢
    have hrow : w.Takes [row] := hw.of_append
    rw [Writer.write_of_takes hrow] at hwrite
    obtain rfl : w.after [row] = w' := (Prod.mk.inj hwrite).2
    rw [ih (Writer.takes_after_iff.mpr hw), Yield.ofStep, w.conclude_cons]
    simp only [Yield.cons, List.length_cons, Machine.after_of_next hn, ← w.after_append]
    rfl
  | case4 w count s row s' hn w' hwrite =>
    rw [m.yield_eq_step, hn] at hw
    have hrow : w.Takes [row] := hw.of_append
    rw [Writer.write_of_takes hrow] at hwrite
    cases hwrite

theorem Writer.Unfailing.conclude_eq {w : Writer} (hw : w.Unfailing) (y : Yield) :
    w.conclude y = y.count := by
  simp only [conclude, hw.flushes, if_true]
  cases y.count with
  | error e => rfl
  | ok k => rfl

namespace Cursor

def yield (fs : Files) (c : Cursor) : Yield :=
  c.op.machine.yield fs c.state

/-- A cursor after a number of calls for the next row. -/
def after (fs : Files) (c : Cursor) (k : Nat) : Cursor :=
  ⟨c.op, c.op.machine.after fs c.state k⟩

/-- Where there is room for the lines of all rows, all are written. -/
theorem write_of_takes (fs : Files) (c : Cursor) {w : Writer} (hw : w.Takes (c.yield fs).rows) :
    c.write fs w = (w.conclude (c.yield fs), w.after (c.yield fs).rows,
      c.after fs ((c.yield fs).rows.length + 1)) := by
  have hcount : (w.conclude (c.yield fs)).map (0 + ·) = w.conclude (c.yield fs) := by
    cases w.conclude (c.yield fs) with
    | error e => rfl
    | ok k => exact congrArg Except.ok (Nat.zero_add k)
  rw [write, writeRows_of_takes c.op.machine fs 0 c.state hw, ← hcount]
  rfl

/-- **Writing out.**  A writer that never fails gets the lines of all rows handed out, also of those
before an error; the answer is their number, or the error. -/
theorem write_spec (fs : Files) (c : Cursor) {w : Writer} (hw : w.Unfailing) :
    (c.write fs w).1 = (c.yield fs).count ∧
      (c.write fs w).2.1 = w.after (c.yield fs).rows := by
  rw [c.write_of_takes fs (hw.takes _), hw.conclude_eq]
  exact ⟨rfl, rfl⟩

end Cursor

end Rows

end FlatQuery
