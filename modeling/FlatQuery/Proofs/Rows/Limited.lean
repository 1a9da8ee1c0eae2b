import FlatQuery.Proofs.Rows.Written

/-!
# Writing into limited room

A writer that takes a number of bytes only, and whose flush may fail.  Where the lines of all rows
handed out find room, writing is as if there were no limit (`Cursor.write_of_takes`).  Where they do
not, some row is the first whose line does not: the writer is full with the beginning of that line,
the answer is the failure of the writer, and no further row is asked for (`Cursor.write_of_short`).
So what is received is always a prefix of the lines of all rows, as long as the limit allows
(`Cursor.write_limited`).
-/

namespace FlatQuery.Rows

open Outcome

variable {σ : Type}

/-! ### Rows and calls -/

theorem Machine.answer_of_yield (m : Machine σ) {fs : Files} {s : σ} {before rest : List Row}
    {row : Row} (h : (m.yield fs s).rows = before ++ row :: rest) :
    m.answer fs s before.length = .ok (some row) := by
  rw [m.yield_eq_step] at h
  rcases hn : m.next fs s with ⟨e | _ | first, s'⟩
  · rw [hn] at h
    exact absurd h.symm (List.append_ne_nil_of_right_ne_nil _ (List.cons_ne_nil _ _))
  · rw [hn] at h
    exact absurd h.symm (List.append_ne_nil_of_right_ne_nil _ (List.cons_ne_nil _ _))
  · rw [hn] at h
    have hrows : first :: (m.yield fs s').rows = before ++ row :: rest := h
    cases before with
    | nil =>
      obtain rfl := (List.cons.inj hrows).1
      rw [List.length_nil, answer, after, hn]
    | cons first' before =>
      rw [List.length_cons, answer, after_of_next hn]
      exact answer_of_yield m (List.cons.inj hrows).2

namespace Writer

/-- A writer that has taken only the first of its bytes. -/
def cut (w : Writer) (n : Nat) : Writer :=
  { w with received := w.received.take n }

/-- The line of a row for which there is no room is written as far as it goes. -/
theorem write_of_not_takes {w : Writer} {n : Nat} {row : Row} (hlimit : w.limit = some n)
    (h : ¬ w.Takes [row]) : w.write (lineBytes row) = (false, (w.after [row]).cut n) := by
  have hcut : (w.after [row]).cut n =
      { w with received := (w.received ++ lineBytes row).take n } := by
    simp only [cut, after, List.flatMap_cons, List.flatMap_nil, List.append_nil]
  have hlong : ¬ (w.received ++ lineBytes row).length ≤ n := by
    simpa only [takes_iff hlimit, after, List.flatMap_cons, List.flatMap_nil,
      List.append_nil] using h
  rw [hcut]
  simp only [write, hlimit, if_neg hlong]

theorem cut_after_of_not_takes {w : Writer} {n : Nat} {xs : List Row} (hlimit : w.limit = some n)
    (h : ¬ w.Takes xs) (ys : List Row) : (w.after (xs ++ ys)).cut n = (w.after xs).cut n := by
  rw [takes_iff hlimit] at h
  have hreceived : ((w.after (xs ++ ys)).received).take n = (w.after xs).received.take n := by
    rw [after_append]
    exact List.take_append_of_le_length (by omega)
  simp only [cut, hreceived]
  rfl

end Writer

/-- Writing out more rows than there is room for ends at the first whose line does not fit. -/
theorem writeRows_of_short (m : Machine σ) (fs : Files) {w : Writer} {n : Nat}
    (hlimit : w.limit = some n) (count : Nat) (s : σ) (hroom : w.Takes [])
    (hshort : ¬ w.Takes (m.yield fs s).rows) :
    ∃ before row rest, (m.yield fs s).rows = before ++ row :: rest ∧ w.Takes before ∧
      ¬ w.Takes (before ++ [row]) ∧ m.writeRows fs w count s =
        (.error Writer.failure, (w.after (m.yield fs s).rows).cut n,
          m.after fs s (before.length + 1)) := by
  -- by the recursion of the loop, which ends at a row for which there is no room
  fun_induction m.writeRows fs w count s with
  | case1 w count s e s' hn =>
    rw [m.yield_eq_step, hn] at hshort
    exact absurd hroom hshort
  | case2 w count s s' hn =>
    rw [m.yield_eq_step, hn] at hshort
    exact absurd hroom hshort
  | case3 w count s row s' hn w' hwrite ih =>
    have hrows : (m.yield fs s).rows = [row] ++ (m.yield fs s').rows := by
      rw [m.yield_eq_step, hn]
      rfl
    by_cases hrow : w.Takes [row]
    · rw [Writer.write_of_takes hrow] at hwrite
      obtain rfl : w.after [row] = w' := (Prod.mk.inj hwrite).2
      rw [hrows, ← Writer.takes_after_iff] at hshort
      obtain ⟨before, row', rest, hrest, hbefore, hfirst, hout⟩ :=
        ih hlimit (Writer.takes_after_iff.mpr hrow) hshort
      refine ⟨row :: before, row', rest, ?_, Writer.takes_after_iff.mp hbefore, ?_, ?_⟩
      · rw [hrows, hrest]
        rfl
      · exact fun h => hfirst (Writer.takes_after_iff.mpr h)
      · rw [hout, hrows, Writer.after_append, List.length_cons, Machine.after_of_next hn]
    · rw [Writer.write_of_not_takes hlimit hrow] at hwrite
      cases hwrite
  | case4 w count s row s' hn w' hwrite =>
    have hrows : (m.yield fs s).rows = [row] ++ (m.yield fs s').rows := by
      rw [m.yield_eq_step, hn]
      rfl
    by_cases hrow : w.Takes [row]
    · rw [Writer.write_of_takes hrow] at hwrite
      cases hwrite
    · rw [Writer.write_of_not_takes hlimit hrow] at hwrite
      obtain rfl : (w.after [row]).cut n = w' := (Prod.mk.inj hwrite).2
      refine ⟨[], row, (m.yield fs s').rows, hrows, hroom, hrow, ?_⟩
      rw [hrows, Writer.cut_after_of_not_takes hlimit hrow, List.length_nil,
        Machine.after_of_next hn, Machine.after]

theorem Writer.conclude_eq_ok_iff {w : Writer} {y : Yield} {k : Nat} :
    w.conclude y = .ok k ↔ y.error = none ∧ k = y.rows.length ∧ w.flushes = true := by
  unfold conclude Yield.count
  rcases y.error with _ | e
  · cases w.flushes <;> simp [eq_comm]
  · simp

theorem Writer.conclude_eq_error_iff {w : Writer} {y : Yield} {e : Error} :
    w.conclude y = .error e ↔
      y.error = some e ∨ y.error = none ∧ w.flushes = false ∧ e = failure := by
  unfold conclude Yield.count
  rcases y.error with _ | e
  · cases w.flushes <;> simp [eq_comm]
  · simp

namespace Cursor

/-- Where there is no room for the lines of all rows, the first that does not fit ends the writing. -/
theorem write_of_short (fs : Files) (c : Cursor) {w : Writer} {n : Nat} (hlimit : w.limit = some n)
    (hroom : w.Takes []) (hshort : ¬ w.Takes (c.yield fs).rows) :
    ∃ before row rest, (c.yield fs).rows = before ++ row :: rest ∧ w.Takes before ∧
      ¬ w.Takes (before ++ [row]) ∧
      c.op.machine.answer fs c.state before.length = .ok (some row) ∧
      c.write fs w = (.error Writer.failure, (w.after (c.yield fs).rows).cut n,
        c.after fs (before.length + 1)) := by
  obtain ⟨before, row, rest, hrows, hbefore, hrow, hwrite⟩ :=
    writeRows_of_short c.op.machine fs hlimit 0 c.state hroom hshort
  refine ⟨before, row, rest, hrows, hbefore, hrow, c.op.machine.answer_of_yield hrows, ?_⟩
  rw [write, hwrite]
  rfl

/-- **Writing into limited room.**  A writer that takes `n` bytes and then fails receives the first
`n` bytes of the lines of all rows handed out, or all of them.  The answer is the number of the rows
if no error ends them, their lines find room and the flush succeeds.  Otherwise it is an error: the
writer's if the lines do not find room, else the one that ends the rows, else the writer's for the
flush.  After a row whose line does not find room, no further row is asked for. -/
theorem write_limited (fs : Files) (c : Cursor) (n : Nat) (flushes : Bool) :
    let y := c.yield fs
    let bytes := y.rows.flatMap lineBytes
    let out := c.write fs { limit := some n, flushes }
    out.2.1.received = bytes.take (min n bytes.length) ∧
      (∀ k, out.1 = .ok k ↔
        y.error = none ∧ k = y.rows.length ∧ bytes.length ≤ n ∧ flushes = true) ∧
      (∀ e, out.1 = .error e ↔
        n < bytes.length ∧ e = Writer.failure ∨
          bytes.length ≤ n ∧
            (y.error = some e ∨ y.error = none ∧ flushes = false ∧ e = Writer.failure)) ∧
      (bytes.length ≤ n → out.2.2 = c.after fs (y.rows.length + 1)) ∧
      (n < bytes.length → ∃ before row rest, y.rows = before ++ row :: rest ∧
        (before.flatMap lineBytes).length ≤ n ∧
        n < ((before ++ [row]).flatMap lineBytes).length ∧
        c.op.machine.answer fs c.state before.length = .ok (some row) ∧
        out.2.2 = c.after fs (before.length + 1)) := by
  intro y bytes out
  let w : Writer := { limit := some n, flushes }
  have htakes : ∀ rows, w.Takes rows ↔ (rows.flatMap lineBytes).length ≤ n :=
    fun rows => Writer.takes_iff rfl
  -- either all lines find room, or there is a first row whose line does not
  by_cases hfits : bytes.length ≤ n
  · have hout : out = (w.conclude y, w.after y.rows, c.after fs (y.rows.length + 1)) :=
      c.write_of_takes fs ((htakes _).mpr hfits)
    refine ⟨?_, ?_, ?_, ?_, fun h => absurd hfits (by omega)⟩
    · rw [hout, min_eq_right hfits, List.take_length]
      rfl
    · intro k
      rw [hout, Writer.conclude_eq_ok_iff]
      simp only [hfits, true_and]
      rfl
    · intro e
      rw [hout, Writer.conclude_eq_error_iff]
      simp only [hfits, true_and, Nat.not_lt.mpr hfits, false_and, false_or]
      rfl
    · intro _
      rw [hout]
  · obtain ⟨before, row, rest, hrows, hbefore, hrow, hanswer, hout⟩ :=
      c.write_of_short fs (show w.limit = some n from rfl) ((htakes []).mpr (Nat.zero_le n))
        fun h => hfits ((htakes _).mp h)
    change out = _ at hout
    rw [htakes] at hbefore hrow
    refine ⟨?_, ?_, ?_, fun h => absurd h hfits, fun _ => ⟨before, row, rest, hrows, hbefore,
      Nat.lt_of_not_le hrow, hanswer, ?_⟩⟩
    · rw [hout, min_eq_left (by omega)]
      rfl
    · intro k
      rw [hout]
      exact iff_of_false nofun fun h => hfits h.2.2.1
    · intro e
      rw [hout]
      simp only [hfits, false_and, or_false, Nat.lt_of_not_le hfits, true_and]
      rw [Except.error.injEq]
      exact eq_comm
    · rw [hout]

/-- Two lines of three bytes each: room for four of the bytes ends within the second line, and is
enough for one row; room for all six is enough, unless the flush fails. -/
theorem write_limited_sample :
    let c := Cursor.listed [⟨["ab"]⟩, ⟨["cd"]⟩]
    ((c.write {} { limit := some 4 }).2.1.received = [97, 98, 10, 99] ∧
        (c.write {} { limit := some 4 }).1 = .error Writer.failure) ∧
      (c.write {} { limit := some 6 }).1 = .ok 2 ∧
      (c.write {} { limit := some 6, flushes := false }).1 = .error Writer.failure := by
  intro c
  have hyield : c.yield {} = .ofList [⟨["ab"]⟩, ⟨["cd"]⟩] := yield_listed _ _ _
  have hbytes : (c.yield {}).rows.flatMap lineBytes = [97, 98, 10, 99, 100, 10] := by
    rw [hyield]
    decide +kernel
  have herror : (c.yield {}).error = none := by rw [hyield]; rfl
  have hlength : (c.yield {}).rows.length = 2 := by rw [hyield]; rfl
  obtain ⟨hfour, -, hfailed, -⟩ := write_limited {} c 4 true
  obtain ⟨-, hsix, -⟩ := write_limited {} c 6 true
  obtain ⟨-, -, hflush, -⟩ := write_limited {} c 6 false
  rw [hbytes] at hfour hfailed hsix hflush
  exact ⟨⟨hfour, (hfailed _).mpr (.inl ⟨by decide, rfl⟩)⟩,
    (hsix 2).mpr ⟨herror, hlength.symm, by decide, rfl⟩,
    (hflush _).mpr (.inr ⟨by decide, .inr ⟨herror, rfl, rfl⟩⟩)⟩

end Cursor

end FlatQuery.Rows
