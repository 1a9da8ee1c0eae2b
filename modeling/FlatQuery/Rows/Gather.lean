import FlatQuery.Rows.Machine

/-!
Machines that read all their input before they hand out a row.  What they do with the input is a
gathering: a start, a step for each row, and the rows made of the outcome.
-/

namespace FlatQuery.Rows

/-- The rows a gathering machine has to hand out, once it has read its input. -/
inductive Gathered where
  | pending
  | ready (rest : List Row)
  deriving DecidableEq, Repr, Inhabited

namespace Gathered

def isReady : Gathered → Bool
  | pending => false
  | ready _ => true

def advance : Gathered → Option Row × Gathered
  | pending => (none, pending)
  | ready [] => (none, ready [])
  | ready (row :: rest) => (some row, ready rest)

end Gathered

/-- How the rows of an input are gathered.  `count` bounds the rows of the outcome, and a row of
the input raises it by one at most. -/
structure Gathering where
  Acc : Type
  start : Acc
  step : Acc → Row → Except Error Acc
  finish : Acc → Except Error (List Row)
  count : Acc → Nat
  count_start : count start ≤ 1
  count_step : ∀ a row b, step a row = .ok b → count b ≤ count a + 1
  length_finish : ∀ a rows, finish a = .ok rows → rows.length ≤ count a

/-- The state of a gathering machine. -/
structure GatherState (σ : Type) where
  input : σ
  output : Gathered := .pending

variable {σ : Type}

/-- The rows gathered from what is left of the input. -/
def gather (m : Machine σ) (g : Gathering) (fs : Files) (s : σ) : Except Error (List Row) × σ :=
  match m.fold fs g.step g.start s with
  | (.error e, s') => (.error e, s')
  | (.ok acc, s') => (g.finish acc, s')

theorem length_gather {m : Machine σ} {g : Gathering} {fs : Files} {s s' : σ} {rows : List Row}
    (h : gather m g fs s = (.ok rows, s')) : rows.length ≤ m.size fs s + 1 := by
  unfold gather at h
  split at h
  · simp at h
  · rename_i acc t hf
    simp only [Prod.mk.injEq] at h
    have h1 := m.count_fold_le fs g.step g.count g.count_step g.start acc s t hf
    have h2 := g.length_finish acc rows h.1
    have h3 := g.count_start
    omega

/-- The next gathered row.  If the input fails, nothing is kept of it. -/
def nextGathered (m : Machine σ) (g : Gathering) (fs : Files) (s : GatherState σ) :
    Except Error (Option Row) × GatherState σ :=
  match s.output with
  | .ready rest =>
    let (row, output) := (Gathered.ready rest).advance
    (.ok row, { s with output })
  | .pending =>
    match gather m g fs s.input with
    | (.error e, input) => (.error e, { s with input })
    | (.ok rows, input) =>
      let (row, output) := (Gathered.ready rows).advance
      (.ok row, { input, output })

/-- Hands out what is gathered from the rows of `m`. -/
def gathered (m : Machine σ) (g : Gathering) : Machine (GatherState σ) where
  next := nextGathered m g
  reset fs s :=
    match m.reset fs s.input with
    | (.error e, input) => (.error e, { s with input })
    | (.ok (), input) => (.ok (), { input })
  size fs s :=
    match s.output with
    | .ready rest => rest.length
    | .pending => m.size fs s.input + 1
  full fs := m.full fs + 1
  size_next := by
    intro fs s row s' h
    unfold nextGathered at h
    split at h
    · rename_i rest ho
      cases rest with
      | nil => simp [Gathered.advance] at h
      | cons r rest =>
        simp only [Gathered.advance, Prod.mk.injEq] at h
        simp [← h.2]
    · rename_i ho
      split at h
      · simp at h
      · rename_i rows input hg
        have hl := length_gather hg
        cases rows with
        | nil => simp [Gathered.advance] at h
        | cons r rest =>
          simp only [Gathered.advance, Prod.mk.injEq] at h
          simp only [List.length_cons] at hl
          simp only [← h.2]
          omega
  size_reset := by
    intro fs s s' h
    split at h
    · simp at h
    · rename_i input hr
      simp only [Prod.mk.injEq, true_and] at h
      subst h
      have := m.size_reset _ _ _ hr
      simp only
      omega

end FlatQuery.Rows
