import FlatQuery.Proofs.Rows.Yield
import FlatQuery.Proofs.Outcome
import FlatQuery.Rows.Operator

/-!
# What each kind of machine hands out

One equation for each kind of machine: its yield in terms of the yields of its inputs.  A scan gives
the rows of the lines to come, a filter tests each row, a join tests each pair, and a gathering
machine gives what it makes of all its input.
-/

namespace FlatQuery.Rows

variable {σ τ : Type}

/-! ### Sources -/

theorem yield_listed (rows : List Row) (fs : Files) (s : List Row) :
    (listed rows).yield fs s = .ofList s := by
  refine Machine.yield_eq_of_step _ fs ?_ s
  intro s
  cases s with
  | nil => rfl
  | cons row rest => rfl

theorem openTable_eq_ok_iff {fs : Files} {t : Table} {s : Files.Handle} :
    openTable fs t = .ok s ↔ ∃ node, fs.find t.dataFile = .ok node ∧ s = { node } := by
  rw [openTable, Files.openPath]
  cases fs.find t.dataFile with
  | error e => simp [Outcome.error_bind]
  | ok node => simp [Outcome.ok_bind, Outcome.pure_eq_ok, eq_comm]

theorem openTable_error {fs : Files} {t : Table} {e : Error} (h : openTable fs t = .error e) :
    ∃ cause, e = .file t.dataFile.text cause := by
  unfold openTable at h
  split at h
  · cases h
  · exact ⟨_, (Except.error.inj h).symm⟩

/-- The rows of lines: one for each line that is not blank, up to one that is not a text. -/
def lineRows (path : String) : List (Option String) → Yield
  | [] => .empty
  | none :: _ => .fail (.file path .invalidData)
  | some line :: rest =>
    if Text.isBlankText (withoutLineEnd line) then lineRows path rest
    else .cons (Row.ofLine Row.separator (withoutLineEnd line)) (lineRows path rest)

/-- What is handed out by a file that has been opened. -/
def handleRows (path : String) (fs : Files) (h : Files.Handle) : Yield :=
  match h.node with
  | .directory => .fail (.file path .isADirectory)
  | .file _ => lineRows path (h.upcoming fs)

theorem handleRows_congr {fs fs' : Files} {h : Files.Handle} (path : String)
    (hcontent : ∀ id, h.node = .file id → fs'.content id = fs.content id) :
    handleRows path fs' h = handleRows path fs h := by
  obtain ⟨node, offset, pending⟩ := h
  cases node with
  | directory => rfl
  | file id =>
    have hunread : Files.Handle.unread fs' ⟨.file id, offset, pending⟩ =
        Files.Handle.unread fs ⟨.file id, offset, pending⟩ := by
      simp only [Files.Handle.unread, hcontent id rfl]
    simp only [handleRows, Files.Handle.upcoming, hunread]

/-- The first row of some lines, and then those of the lines after it. -/
theorem lineRows_append (path : String) (ls ms : List (Option String)) :
    lineRows path (ls ++ ms) = match firstRow path ls with
      | (.error e, _) => .fail e
      | (.ok none, _) => lineRows path ms
      | (.ok (some row), rest) => .cons row (lineRows path (rest ++ ms)) := by
  induction ls with
  | nil => rfl
  | cons l ls ih =>
    cases l with
    | none => rfl
    | some line =>
      by_cases hb : Text.isBlankText (withoutLineEnd line) = true
      · simp only [List.cons_append, lineRows, firstRow, hb, if_true, ih]
      · simp only [List.cons_append, lineRows, firstRow, hb, if_false, Bool.false_eq_true]

/-- Once the file has been read to its end, only the lines held are to come. -/
theorem upcoming_of_read {fs : Files} {id n : Nat} (ls : List (Option String)) :
    Files.Handle.upcoming fs ⟨.file id, max n (fs.content id).size, ls⟩ = ls := by
  simp only [Files.Handle.upcoming, Files.Handle.unread, lines_drop_size, List.append_nil]

theorem handleRows_eq_step (path : String) (fs : Files) (h : Files.Handle) :
    handleRows path fs h = .ofStep (handleRows path fs) (nextScanned path fs h) := by
  obtain ⟨node, offset, pending⟩ := h
  cases node with
  | directory => rfl
  | file id =>
    show lineRows path (pending ++ Files.Handle.unread fs ⟨.file id, offset, pending⟩) = _
    rw [lineRows_append]
    simp only [nextScanned]
    rcases firstRow path pending with ⟨e | _ | row, rest⟩
    · rfl
    · -- the lines held are used up: the rest of the file is brought in
      simp only [Files.Handle.refill, List.nil_append, Files.Handle.unread]
      have hl := lineRows_append path ((fs.content id).drop offset).lines []
      rw [List.append_nil] at hl
      rw [hl]
      rcases firstRow path ((fs.content id).drop offset).lines with ⟨e | _ | row, rest⟩
      · rfl
      · rfl
      · simp only [Yield.ofStep, handleRows, upcoming_of_read, List.append_nil]
    · rfl

theorem yield_scanned (t : Table) (fs : Files) (h : Files.Handle) :
    (scanned t).yield fs h = handleRows t.dataFile.text fs h :=
  Machine.yield_eq_of_step _ fs (handleRows_eq_step t.dataFile.text fs) h

/-! ### Selection and projection -/

def tested (on : Option Term) (row : Row) : Yield :=
  match Term.passes on row with
  | .error e => .fail e
  | .ok true => .ofList [row]
  | .ok false => .empty

def picked (indexes : List Nat) (row : Row) : Yield :=
  match row.pick indexes with
  | .error e => .fail e
  | .ok r => .ofList [r]

theorem yield_filtered (m : Machine σ) (on : Option Term) (fs : Files) (s : σ) :
    (filtered m on).yield fs s = (m.yield fs s).bind (tested on) := by
  refine Machine.yield_eq_of_step _ fs (d := fun s => (m.yield fs s).bind (tested on)) ?_ s
  intro s
  show _ = Yield.ofStep _ (nextPassing m on fs s)
  fun_induction nextPassing m on fs s with
  | case1 s e s' hn => rw [m.yield_eq_step, hn]; rfl
  | case2 s s' hn => rw [m.yield_eq_step, hn]; rfl
  | case3 s row s' hn e he =>
    simp only [m.yield_eq_step fs s, hn, Yield.ofStep, Yield.cons_bind, tested, he,
      Yield.fail_append]
  | case4 s row s' hn ht =>
    simp only [m.yield_eq_step fs s, hn, Yield.ofStep, Yield.cons_bind, tested, ht]
    rfl
  | case5 s row s' hn hf ih =>
    rw [← ih, m.yield_eq_step fs s, hn]
    simp only [Yield.ofStep, Yield.cons_bind, tested, hf, Yield.empty_append]

theorem yield_projected (m : Machine σ) (indexes : List Nat) (fs : Files) (s : σ) :
    (projected m indexes).yield fs s = (m.yield fs s).bind (picked indexes) := by
  refine Machine.yield_eq_of_step _ fs (d := fun s => (m.yield fs s).bind (picked indexes)) ?_ s
  intro s
  simp only [m.yield_eq_step fs s, projected]
  rcases m.next fs s with ⟨e | _ | row, s'⟩
  · rfl
  · rfl
  · simp only [Yield.ofStep, Yield.cons_bind, picked]
    cases row.pick indexes with
    | error e => rfl
    | ok r => rfl

/-! ### Joins -/

/-- What a join hands out from a state on: pairs with the left row that is held, and then pairs
with the left rows to come. -/
def pairs (l : Machine σ) (r : Machine τ) (right : Yield) (on : Option Term) (fs : Files)
    (s : JoinState σ τ) : Yield :=
  let later := (l.yield fs s.left).bind fun a => right.bind fun b => tested on (a.append b)
  match s.current with
  | none => later
  | some a => ((r.yield fs s.right).bind fun b => tested on (a.append b)).append later

section Join

variable {l : Machine σ} {r : Machine τ} {right : Yield} {fs : Files}

theorem pairs_eq_step (hr : ∀ y, ∃ y', r.reset fs y = (.ok (), y') ∧ r.yield fs y' = right)
    (on : Option Term) (s : JoinState σ τ) :
    pairs l r right on fs s = .ofStep (pairs l r right on fs) (nextPair l r on fs s) := by
  -- by the recursion of the loop; where it goes round, the pairs to come are the same
  fun_induction nextPair l r on fs s with
  | case1 x y a e y' hn =>
    simp only [pairs, r.yield_eq_step fs y, hn, Yield.ofStep, Yield.fail_bind, Yield.fail_append]
  | case2 x y a y' hn ih =>
    rw [← ih]
    simp only [pairs, r.yield_eq_step fs y, hn, Yield.ofStep, Yield.empty_bind, Yield.empty_append]
  | case3 x y a b y' hn e he =>
    simp only [pairs, r.yield_eq_step fs y, hn, Yield.ofStep, Yield.cons_bind, tested, he,
      Yield.fail_append]
  | case4 x y a b y' hn ht =>
    simp only [pairs, r.yield_eq_step fs y, hn, Yield.ofStep, Yield.cons_bind, tested, ht,
      Yield.append_assoc]
    rfl
  | case5 x y a b y' hn hf ih =>
    rw [← ih]
    simp only [pairs, r.yield_eq_step fs y, hn, Yield.ofStep, Yield.cons_bind, tested, hf,
      Yield.empty_append]
  | case6 x y e x' hn =>
    simp only [pairs, l.yield_eq_step fs x, hn, Yield.ofStep, Yield.fail_bind]
  | case7 x y x' hn =>
    simp only [pairs, l.yield_eq_step fs x, hn, Yield.ofStep, Yield.empty_bind]
  | case8 x y a x' hn e y' hy =>
    obtain ⟨y'', hy', -⟩ := hr y
    rw [hy] at hy'
    cases hy'
  | case9 x y a x' hn y' hy ih =>
    obtain ⟨y'', hy', hright⟩ := hr y
    rw [hy] at hy'
    cases hy'
    rw [← ih]
    simp only [pairs, l.yield_eq_step fs x, hn, Yield.ofStep, Yield.cons_bind, hright]

/-- A join whose right side hands out the same each time it starts over tests each pair of a left
and a right row, left rows first. -/
theorem yield_joined (hr : ∀ y, ∃ y', r.reset fs y = (.ok (), y') ∧ r.yield fs y' = right)
    (on : Option Term) (x : σ) (y : τ) :
    (joined l r on).yield fs ⟨x, y, none⟩ =
      (l.yield fs x).bind fun a => right.bind fun b => tested on (a.append b) :=
  Machine.yield_eq_of_step (joined l r on) fs (pairs_eq_step hr on) ⟨x, y, none⟩

end Join

/-! ### Gathering -/

/-- A step folded over the rows, unless they end in an error. -/
def Yield.fold {α : Type} (y : Yield) (step : α → Row → Except Error α) (acc : α) :
    Except Error α :=
  y.rows.foldlM step acc >>= fun acc =>
    match y.error with
    | none => .ok acc
    | some e => .error e

/-- Rows that have been made, or the error instead. -/
def Yield.ofRows : Except Error (List Row) → Yield
  | .error e => .fail e
  | .ok rows => .ofList rows

theorem fold_eq {α : Type} (m : Machine σ) (fs : Files) (step : α → Row → Except Error α)
    (acc : α) (s : σ) : (m.fold fs step acc s).1 = (m.yield fs s).fold step acc := by
  fun_induction m.fold fs step acc s with
  | case1 acc s e s' hn => rw [m.yield_eq_step, hn]; rfl
  | case2 acc s s' hn => rw [m.yield_eq_step, hn]; rfl
  | case3 acc s row s' hn e he =>
    simp only [m.yield_eq_step fs s, hn, Yield.ofStep, Yield.cons, Yield.fold, List.foldlM_cons, he,
      Outcome.error_bind]
  | case4 acc s row s' hn acc' ha ih =>
    rw [ih, m.yield_eq_step fs s, hn]
    simp only [Yield.ofStep, Yield.cons, Yield.fold, List.foldlM_cons, ha, Outcome.ok_bind]

/-- What a gathering makes of what its input hands out. -/
def gatheredRows (g : Gathering) (y : Yield) : Except Error (List Row) :=
  y.fold g.step g.start >>= g.finish

theorem gather_eq (m : Machine σ) (g : Gathering) (fs : Files) (s : σ) :
    (gather m g fs s).1 = gatheredRows g (m.yield fs s) := by
  unfold gather gatheredRows
  rw [← fold_eq]
  rcases m.fold fs g.step g.start s with ⟨e | acc, s'⟩
  · rfl
  · rfl

/-- What a gathering machine has still to hand out. -/
def gatheredYield (m : Machine σ) (g : Gathering) (fs : Files) (s : GatherState σ) : Yield :=
  match s.output with
  | .ready rest => .ofList rest
  | .pending => .ofRows (gather m g fs s.input).1

theorem yield_gathered (m : Machine σ) (g : Gathering) (fs : Files) (x : σ) :
    (gathered m g).yield fs ⟨x, .pending⟩ = .ofRows (gatheredRows g (m.yield fs x)) := by
  rw [← gather_eq]
  refine Machine.yield_eq_of_step (gathered m g) fs (s := ⟨x, .pending⟩)
    (d := gatheredYield m g fs) ?_
  rintro ⟨x, _ | rest⟩
  · have hpending : gatheredYield m g fs ⟨x, .pending⟩ = .ofRows (gather m g fs x).1 := rfl
    simp only [gathered, nextGathered, hpending]
    rcases gather m g fs x with ⟨e | rows, x'⟩
    · rfl
    · cases rows with
      | nil => rfl
      | cons row rest => rfl
  · cases rest with
    | nil => rfl
    | cons row rest => rfl

end FlatQuery.Rows
