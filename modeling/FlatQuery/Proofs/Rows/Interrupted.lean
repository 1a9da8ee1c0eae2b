import FlatQuery.Proofs.Rows.SumOrder

/-!
# Calls after a failed call

A gathering machine whose input fails keeps nothing of what it has read, but the input stays where
it failed: the next call gathers what is left of it (`LeftBy`).  So a machine that is asked again
after an error may hand out rows made of a part of its input.  It hands out rows of the whole result
only (`HandsOutWhole`) exactly if the first call does not fail, or whatever failed calls leave gives
no rows (`handsOutWhole_iff`).  Sorting and dropping repeated rows are safe over an input that does
not fail (`handsOutWhole_sorting`, `handsOutWhole_deduplicating`).
-/

namespace FlatQuery.Rows

variable {σ : Type} {m : Machine σ} {g : Gathering} {fs : Files} {x y : σ} {row : Row}
  {rows : List Row} {e : Error}

/-! ### Where a fold stops -/

namespace Machine

theorem after_add (m : Machine σ) (fs : Files) (x : σ) (j k : Nat) :
    m.after fs x (j + k) = m.after fs (m.after fs x j) k := by
  induction j generalizing x with
  | zero => rw [Nat.zero_add, after]
  | succ j ih => rw [Nat.succ_add, after, after, ih]

/-- A fold leaves a machine where some calls for its next row leave it. -/
theorem exists_after_of_fold {α : Type} (m : Machine σ) (fs : Files)
    (step : α → Row → Except Error α) (acc : α) (x : σ) :
    ∃ k, (m.fold fs step acc x).2 = m.after fs x k := by
  fun_induction m.fold fs step acc x with
  | case1 acc x e x' hn => exact ⟨1, by rw [after, after, hn]⟩
  | case2 acc x x' hn => exact ⟨1, by rw [after, after, hn]⟩
  | case3 acc x row x' hn e he => exact ⟨1, by rw [after, after, hn]⟩
  | case4 acc x row x' hn acc' ha ih =>
    obtain ⟨k, hk⟩ := ih
    exact ⟨k + 1, by rw [hk, after, hn]⟩

/-- A fold leaves a machine that does not fail with the last of its rows, if it leaves any. -/
theorem exists_suffix_of_fold {α : Type} (step : α → Row → Except Error α)
    (h : m.Supplies fs x rows) (acc : α) :
    ∃ rest, rest <:+ rows ∧ m.Supplies fs (m.fold fs step acc x).2 rest := by
  fun_induction m.fold fs step acc x generalizing rows with
  | case1 acc x e x' hn => exact (h.not_error hn).elim
  | case2 acc x x' hn => exact ⟨[], List.nil_suffix, (h.of_end hn).2⟩
  | case3 acc x row x' hn e he =>
    obtain ⟨rest, rfl, hrest⟩ := h.of_row hn
    exact ⟨rest, List.suffix_cons row rest, hrest⟩
  | case4 acc x row x' hn acc' ha ih =>
    obtain ⟨rest, rfl, hrest⟩ := h.of_row hn
    obtain ⟨last, hlast, hsupplies⟩ := ih hrest
    exact ⟨last, hlast.trans (List.suffix_cons row rest), hsupplies⟩

/-- A fold whose steps do not fail leaves a machine that does not fail either at its end. -/
theorem supplies_nil_of_fold {α : Type} {step : α → Row → Except Error α}
    (hstep : ∀ acc row, ∃ acc', step acc row = .ok acc') (h : m.Supplies fs x rows) (acc : α) :
    m.Supplies fs (m.fold fs step acc x).2 [] := by
  fun_induction m.fold fs step acc x generalizing rows with
  | case1 acc x e x' hn => exact (h.not_error hn).elim
  | case2 acc x x' hn => exact (h.of_end hn).2
  | case3 acc x row x' hn e he =>
    obtain ⟨acc', hacc⟩ := hstep acc row
    cases he.symm.trans hacc
  | case4 acc x row x' hn acc' ha ih =>
    obtain ⟨rest, -, hrest⟩ := h.of_row hn
    exact ih hrest

end Machine

/-! ### What failed calls leave of the input -/

/-- That failed calls, one after the other, have brought the input from one state to another. -/
inductive LeftBy (m : Machine σ) (g : Gathering) (fs : Files) : σ → σ → Prop
  | start (x : σ) : LeftBy m g fs x x
  | failed {x y : σ} {e : Error} : gatheredRows g (m.yield fs x) = .error e →
      LeftBy m g fs (gather m g fs x).2 y → LeftBy m g fs x y

/-- That every row handed out is one of the result over all that the input has to hand out, however
many calls are made, and whether they fail or not. -/
def HandsOutWhole (m : Machine σ) (g : Gathering) (fs : Files) (x : σ) : Prop :=
  ∀ n row, (gathered m g).answer fs ⟨x, .pending⟩ n = .ok (some row) →
    ∃ rows, gatheredRows g (m.yield fs x) = .ok rows ∧ row ∈ rows

theorem gather_state_eq (m : Machine σ) (g : Gathering) (fs : Files) (x : σ) :
    (gather m g fs x).2 = (m.fold fs g.step g.start x).2 := by
  unfold gather
  rcases m.fold fs g.step g.start x with ⟨e | acc, x'⟩
  · rfl
  · rfl

/-- What failed calls leave is the input after some calls for its next row. -/
theorem LeftBy.exists_after (h : LeftBy m g fs x y) : ∃ k, y = m.after fs x k := by
  induction h with
  | start x => exact ⟨0, rfl⟩
  | @failed x y e _ _ ih =>
    obtain ⟨k, rfl⟩ := ih
    obtain ⟨j, hj⟩ := m.exists_after_of_fold fs g.step g.start x
    exact ⟨j + k, by rw [gather_state_eq, hj, m.after_add]⟩

theorem LeftBy.eq_of_ok (h : LeftBy m g fs x y) (hrows : gatheredRows g (m.yield fs x) = .ok rows) :
    y = x := by
  cases h with
  | start => rfl
  | failed hx _ => cases hx.symm.trans hrows

/-- What failed calls leave of an input that does not fail itself are its last rows. -/
theorem LeftBy.exists_suffix (h : LeftBy m g fs x y) (hrows : m.Supplies fs x rows) :
    ∃ rest, rest <:+ rows ∧ m.Supplies fs y rest := by
  induction h generalizing rows with
  | start x => exact ⟨rows, List.suffix_rfl, hrows⟩
  | @failed x y e _ _ ih =>
    obtain ⟨rest, hrest, hsupplies⟩ := Machine.exists_suffix_of_fold g.step hrows g.start
    rw [← gather_state_eq] at hsupplies
    obtain ⟨last, hlast, hlastSupplies⟩ := ih hsupplies
    exact ⟨last, hlast.trans hrest, hlastSupplies⟩

/-- A failed call leaves the machine ready to gather what is left of the input. -/
theorem next_failed (h : gatheredRows g (m.yield fs x) = .error e) :
    (gathered m g).next fs ⟨x, .pending⟩ = (.error e, ⟨(gather m g fs x).2, .pending⟩) := by
  rw [← gather_eq] at h
  rcases hg : gather m g fs x with ⟨e' | rows, x'⟩
  · rw [hg] at h
    cases h
    simp only [gathered, nextGathered, hg]
  · rw [hg] at h
    cases h

theorem answer_failed_succ (h : gatheredRows g (m.yield fs x) = .error e) (n : Nat) :
    (gathered m g).answer fs ⟨x, .pending⟩ (n + 1) =
      (gathered m g).answer fs ⟨(gather m g fs x).2, .pending⟩ n := by
  show (gathered m g).answer fs ((gathered m g).next fs ⟨x, .pending⟩).2 n = _
  rw [next_failed h]

theorem supplies_of_gatheredRows (h : gatheredRows g (m.yield fs x) = .ok rows) :
    (gathered m g).Supplies fs ⟨x, .pending⟩ rows := by
  rcases Machine.next_pending m g fs x with ⟨e, he, -⟩ | ⟨rows', hrows, hsupplies⟩
  · cases he.symm.trans h
  · cases hrows.symm.trans h
    exact hsupplies

/-- A row that is handed out has been gathered from what failed calls have left of the input. -/
theorem exists_leftBy_of_answer {n : Nat}
    (h : (gathered m g).answer fs ⟨x, .pending⟩ n = .ok (some row)) :
    ∃ y rows, LeftBy m g fs x y ∧ gatheredRows g (m.yield fs y) = .ok rows ∧ row ∈ rows := by
  induction n generalizing x with
  | zero =>
    cases hx : gatheredRows g (m.yield fs x) with
    | error e =>
      have hanswer : ((gathered m g).next fs ⟨x, .pending⟩).1 = .ok (some row) := h
      rw [next_failed hx] at hanswer
      cases hanswer
    | ok rows =>
      have hrow := Except.ok.inj ((supplies_of_gatheredRows hx 0).symm.trans h)
      exact ⟨x, rows, .start x, hx, List.mem_of_getElem? hrow⟩
  | succ n ih =>
    cases hx : gatheredRows g (m.yield fs x) with
    | error e =>
      rw [answer_failed_succ hx] at h
      obtain ⟨y, rows, hy, hrows, hrow⟩ := ih h
      exact ⟨y, rows, .failed hx hy, hrows, hrow⟩
    | ok rows =>
      have hrow := Except.ok.inj ((supplies_of_gatheredRows hx (n + 1)).symm.trans h)
      exact ⟨x, rows, .start x, hx, List.mem_of_getElem? hrow⟩

/-- What can be gathered from what failed calls have left is handed out. -/
theorem LeftBy.exists_answer (h : LeftBy m g fs x y) (hrows : gatheredRows g (m.yield fs y) = .ok rows)
    (hrow : row ∈ rows) : ∃ n, (gathered m g).answer fs ⟨x, .pending⟩ n = .ok (some row) := by
  induction h with
  | start x =>
    obtain ⟨n, hn⟩ := List.getElem?_of_mem hrow
    exact ⟨n, by rw [supplies_of_gatheredRows hrows n, hn]⟩
  | failed hx _ ih =>
    obtain ⟨n, hn⟩ := ih hrows
    exact ⟨n + 1, by rw [answer_failed_succ hx, hn]⟩

/-! ### Rows of the whole result -/

/-- Only rows of the whole result are handed out if the first call does not fail, or if nothing is
gathered from what failed calls leave; and in no other case. -/
theorem handsOutWhole_iff : HandsOutWhole m g fs x ↔
    (∃ rows, gatheredRows g (m.yield fs x) = .ok rows) ∨
      ∀ y rows, LeftBy m g fs x y → gatheredRows g (m.yield fs y) = .ok rows → rows = [] := by
  constructor
  · intro h
    rw [Classical.or_iff_not_imp_left]
    intro hfails y rows hy hrows
    refine List.eq_nil_iff_forall_not_mem.mpr ?_
    intro row hrow
    obtain ⟨n, hn⟩ := hy.exists_answer hrows hrow
    obtain ⟨whole, hwhole, -⟩ := h n row hn
    exact hfails ⟨whole, hwhole⟩
  · intro h n row hn
    rcases h with ⟨rows, hrows⟩ | hnone
    · have hrow := Except.ok.inj ((supplies_of_gatheredRows hrows n).symm.trans hn)
      exact ⟨rows, hrows, List.mem_of_getElem? hrow⟩
    · obtain ⟨y, rows, hy, hrows, hrow⟩ := exists_leftBy_of_answer hn
      rw [hnone y rows hy hrows] at hrow
      cases hrow

theorem handsOutWhole_deduplicating (h : m.Supplies fs x rows) :
    HandsOutWhole m deduplicating fs x := by
  refine handsOutWhole_iff.mpr (.inl ⟨rows.eraseDups, ?_⟩)
  rw [h.yield]
  exact gatheredRows_deduplicating.mpr ⟨rfl, rfl⟩

/-- Sorting fails only after all of the input has been read, and nothing is left of it then. -/
theorem handsOutWhole_sorting (h : m.Supplies fs x rows) (ks : List SortKey) :
    HandsOutWhole m (sorting ks) fs x := by
  rw [handsOutWhole_iff]
  cases hx : gatheredRows (sorting ks) (m.yield fs x) with
  | ok out => exact .inl ⟨out, rfl⟩
  | error e =>
    refine .inr ?_
    have hstep : ∀ acc row, ∃ acc', (sorting ks).step acc row = .ok acc' := fun _ _ => ⟨_, rfl⟩
    have hend := Machine.supplies_nil_of_fold hstep h (sorting ks).start
    rw [← gather_state_eq] at hend
    have hnone : gatheredRows (sorting ks) (m.yield fs (gather m (sorting ks) fs x).2) = .ok [] := by
      rw [hend.yield, gatheredRows_sorting_ofList]
      simp [sortRows]
    intro y out hy hout
    cases hy with
    | start => cases hx.symm.trans hout
    | failed _ hy =>
      rw [hy.eq_of_ok hnone, hnone] at hout
      exact (Except.ok.inj hout).symm

/-- **Rows after failed calls.**  Whatever a machine gathers, and however often it is called without
starting over, a row that it hands out has been gathered from what failed calls before it have left
of the input.  So all rows are rows of the result over the complete input exactly if there is such a
result, or if nothing can be gathered from what is left.  Of an input that does not fail itself the
last rows are left; over such an input sorting and dropping repeated rows never hand out other rows
than those of the result. -/
theorem rows_after_failed_calls (m : Machine σ) (fs : Files) (x : σ) :
    (∀ g : Gathering,
      (∀ n row, (gathered m g).answer fs ⟨x, .pending⟩ n = .ok (some row) →
        ∃ y rows, LeftBy m g fs x y ∧ (∃ k, y = m.after fs x k) ∧
          gatheredRows g (m.yield fs y) = .ok rows ∧ row ∈ rows) ∧
      (HandsOutWhole m g fs x ↔ (∃ rows, gatheredRows g (m.yield fs x) = .ok rows) ∨
        ∀ y rows, LeftBy m g fs x y → gatheredRows g (m.yield fs y) = .ok rows → rows = [])) ∧
    ∀ rows, m.Supplies fs x rows →
      (∀ g y, LeftBy m g fs x y → ∃ rest, rest <:+ rows ∧ m.Supplies fs y rest) ∧
      HandsOutWhole m deduplicating fs x ∧ ∀ ks, HandsOutWhole m (sorting ks) fs x := by
  refine ⟨fun g => ⟨?_, handsOutWhole_iff⟩, ?_⟩
  · intro n row h
    obtain ⟨y, rows, hy, hrows, hrow⟩ := exists_leftBy_of_answer h
    exact ⟨y, rows, hy, hy.exists_after, hrows, hrow⟩
  · intro rows h
    exact ⟨fun g y hy => hy.exists_suffix h, handsOutWhole_deduplicating h, handsOutWhole_sorting h⟩

namespace Sample

/-- Numbers, and a row that is none between them. -/
def brokenRows : List Row := [⟨["1"]⟩, ⟨["x"]⟩, ⟨["2"]⟩]

def belowFive : Term :=
  .binary (.field 0 "n") .less (.literal (.integer 5))

end Sample

/-- Rows that are handed out without an error, one of which cannot be sorted by its number. -/
theorem rows_after_failed_calls_sample :
    (listed Sample.brokenRows).Supplies Sample.files Sample.brokenRows Sample.brokenRows ∧
      (∀ g y, LeftBy (listed Sample.brokenRows) g Sample.files Sample.brokenRows y →
        ∃ rest, rest <:+ Sample.brokenRows ∧
          (listed Sample.brokenRows).Supplies Sample.files y rest) ∧
      HandsOutWhole (listed Sample.brokenRows) deduplicating Sample.files Sample.brokenRows ∧
      ∀ ks, HandsOutWhole (listed Sample.brokenRows) (sorting ks) Sample.files Sample.brokenRows := by
  have hinput := Machine.supplies_listed Sample.brokenRows Sample.files Sample.brokenRows
  exact ⟨hinput, (rows_after_failed_calls (listed Sample.brokenRows) Sample.files
    Sample.brokenRows).2 Sample.brokenRows hinput⟩

theorem not_handsOutWhole_of_answers (e : Error) (n : Nat) (row : Row)
    (hfailed : (gathered m g).answer fs ⟨x, .pending⟩ 0 = .error e)
    (hrow : (gathered m g).answer fs ⟨x, .pending⟩ n = .ok (some row)) :
    ¬ HandsOutWhole m g fs x := by
  intro h
  obtain ⟨rows, hrows, -⟩ := h n row hrow
  cases hfailed.symm.trans (supplies_of_gatheredRows hrows 0)

/-- Where a condition or a sum cannot be computed for a row, the first call fails and the second one
hands out a row made of the rows after it. -/
theorem not_handsOutWhole :
    ¬ HandsOutWhole (filtered (listed Sample.brokenRows) (some Sample.belowFive))
      (sorting [{ index := 0, ascending := true }]) Sample.files Sample.brokenRows ∧
    ¬ HandsOutWhole (filtered (listed Sample.brokenRows) (some Sample.belowFive)) deduplicating
      Sample.files Sample.brokenRows ∧
    ¬ HandsOutWhole (filtered (listed Sample.brokenRows) (some Sample.belowFive))
      (grouping Sample.numberSum) Sample.files Sample.brokenRows ∧
    ¬ HandsOutWhole (listed Sample.brokenRows) (grouping Sample.numberSum) Sample.files
      Sample.brokenRows := by
  refine ⟨?_, ?_, ?_, ?_⟩
  · exact not_handsOutWhole_of_answers (.notInteger "x") 1 ⟨["2"]⟩ (by decide +kernel)
      (by decide +kernel)
  · exact not_handsOutWhole_of_answers (.notInteger "x") 1 ⟨["2"]⟩ (by decide +kernel)
      (by decide +kernel)
  · exact not_handsOutWhole_of_answers (.notInteger "x") 1 ⟨["2"]⟩ (by decide +kernel)
      (by decide +kernel)
  · exact not_handsOutWhole_of_answers (.notInteger "x") 1 ⟨["2"]⟩ (by decide +kernel)
      (by decide +kernel)

end FlatQuery.Rows
