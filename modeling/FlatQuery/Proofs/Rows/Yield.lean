import FlatQuery.Rows.Machine
import Mathlib.Data.List.Basic

/-!
# What a machine hands out

A machine that is run to its end gives a `Yield`: the rows it hands out, and the error that ends
them, if one does.  Yields are put after one another (`append`) and put in place of the rows of
another (`bind`); an error cuts off all that would follow it.

The yields of a machine are the only function of its states that unfolds the way the machine steps
(`Machine.yield_eq_of_step`), so what a kind of machine hands out is found by looking at one step.
-/

namespace FlatQuery.Rows

/-- The rows that are handed out, and the error that ends them. -/
structure Yield where
  rows : List Row := []
  error : Option Error := none

namespace Yield

/-! ### Operations -/

def empty : Yield := {}

def fail (e : Error) : Yield := { error := some e }

def cons (row : Row) (y : Yield) : Yield := ⟨row :: y.rows, y.error⟩

def ofList (rows : List Row) : Yield := { rows }

/-- The one after the other, unless the first ends in an error. -/
def append (y z : Yield) : Yield :=
  match y.error with
  | none => ⟨y.rows ++ z.rows, z.error⟩
  | some _ => y

/-- What `f` gives for each row, up to the first error. -/
def each (f : Row → Yield) (e : Option Error) : List Row → Yield
  | [] => { error := e }
  | row :: rest => (f row).append (each f e rest)

/-- What `f` gives in place of each row, up to the first error. -/
def bind (y : Yield) (f : Row → Yield) : Yield :=
  each f y.error y.rows

/-- What is handed out after a step, given what is handed out by the states it may lead to. -/
def ofStep {σ : Type} (d : σ → Yield) : Except Error (Option Row) × σ → Yield
  | (.error e, _) => fail e
  | (.ok none, _) => empty
  | (.ok (some row), s) => cons row (d s)

/-! ### Laws -/

@[simp] theorem fail_append (e : Error) (y : Yield) : (fail e).append y = fail e := rfl

@[simp] theorem empty_append (y : Yield) : empty.append y = y := rfl

theorem append_assoc (x y z : Yield) : (x.append y).append z = x.append (y.append z) := by
  obtain ⟨rows, _ | e⟩ := x
  · obtain ⟨rows', _ | e'⟩ := y
    · simp [append]
    · rfl
  · rfl

@[simp] theorem fail_bind (e : Error) (f : Row → Yield) : (fail e).bind f = fail e := rfl

@[simp] theorem empty_bind (f : Row → Yield) : empty.bind f = empty := rfl

@[simp] theorem cons_bind (row : Row) (y : Yield) (f : Row → Yield) :
    (cons row y).bind f = (f row).append (y.bind f) := rfl

/-! ### Without errors -/

theorem append_error {y z : Yield} :
    (y.append z).error = none ↔ y.error = none ∧ z.error = none := by
  obtain ⟨rows, _ | e⟩ := y
  · simp [append]
  · simp [append]

theorem bind_error {y : Yield} {f : Row → Yield} :
    (y.bind f).error = none ↔ y.error = none ∧ ∀ row ∈ y.rows, (f row).error = none := by
  obtain ⟨rows, e⟩ := y
  induction rows with
  | nil => exact (and_iff_left fun _ h => absurd h List.not_mem_nil).symm
  | cons row rows ih =>
    show ((f row).append ((Yield.mk rows e).bind f)).error = none ↔ _
    rw [append_error, ih, List.forall_mem_cons]
    exact and_left_comm

/-! ### Yields and lists -/

/-- That the rows handed out are those of a list, or the first of them and then an error. -/
def Agrees (y : Yield) (rows : List Row) : Prop :=
  y.rows <+: rows ∧ (y.error = none → y.rows = rows)

theorem agrees_ofList (rows : List Row) : (ofList rows).Agrees rows :=
  ⟨List.prefix_rfl, fun _ => rfl⟩

theorem agrees_fail (e : Error) (rows : List Row) : (fail e).Agrees rows :=
  ⟨List.nil_prefix, fun h => by cases h⟩

theorem Agrees.append {y z : Yield} {xs ys : List Row} (hy : y.Agrees xs) (hz : z.Agrees ys) :
    (y.append z).Agrees (xs ++ ys) := by
  obtain ⟨rows, _ | e⟩ := y
  · obtain rfl := hy.2 rfl
    exact ⟨List.prefix_append_right_inj _ |>.mpr hz.1, fun h => congrArg (rows ++ ·) (hz.2 h)⟩
  · exact ⟨hy.1.trans (List.prefix_append xs ys), fun h => by cases h⟩

theorem Agrees.bind {y : Yield} {rows : List Row} {f : Row → Yield} {g : Row → List Row}
    (h : y.Agrees rows) (hf : ∀ row ∈ rows, (f row).Agrees (g row)) :
    (y.bind f).Agrees (rows.flatMap g) := by
  obtain ⟨ys, e⟩ := y
  induction ys generalizing rows with
  | nil =>
    cases e with
    | none =>
      obtain rfl := h.2 rfl
      exact agrees_ofList []
    | some e => exact agrees_fail e _
  | cons row ys ih =>
    obtain ⟨rest, rfl⟩ := h.1
    have hrest : (Yield.mk ys e).Agrees (ys ++ rest) :=
      ⟨List.prefix_append ys rest, fun he => List.tail_eq_of_cons_eq (h.2 he)⟩
    rw [List.cons_append] at hf ⊢
    exact (hf row (List.mem_cons_self ..)).append
      (ih (fun r hr => hf r (List.mem_cons_of_mem _ hr)) hrest)

end Yield

/-! ### The yield of a machine -/

namespace Machine

variable {σ : Type}

/-- What a machine hands out from a state on. -/
def yield (m : Machine σ) (fs : Files) (s : σ) : Yield :=
  ⟨(m.drain fs s).1, (m.drain fs s).2.1⟩

theorem yield_eq_step (m : Machine σ) (fs : Files) (s : σ) :
    m.yield fs s = .ofStep (m.yield fs) (m.next fs s) := by
  unfold yield
  rw [drain]
  split
  · rename_i h
    rw [h]
    rfl
  · rename_i h
    rw [h]
    rfl
  · rename_i h
    rw [h]
    rfl

/-- What unfolds like the steps of a machine is what the machine hands out. -/
theorem yield_eq_of_step (m : Machine σ) (fs : Files) {d : σ → Yield}
    (hd : ∀ s, d s = .ofStep d (m.next fs s)) (s : σ) : m.yield fs s = d s := by
  induction hn : m.size fs s using Nat.strongRecOn generalizing s with
  | ind n ih =>
    rw [yield_eq_step, hd s]
    rcases hs : m.next fs s with ⟨e | _ | row, s'⟩
    · rfl
    · rfl
    · simp only [Yield.ofStep]
      rw [ih _ (hn ▸ m.size_next fs s row s' hs) s' rfl]

end Machine

end FlatQuery.Rows
