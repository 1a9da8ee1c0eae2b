import FlatQuery.Proofs.Rows.Denotation

/-!
# What can go wrong only with the rows

Once its data files are open and its columns are bound, an operator fails for what the rows hold, and
for nothing else (`Operator.late_yield`): a file turns out not to be a text, a field not to be an
integer, a sum not to fit, a row to be too short, or an expression not to be a condition.  What can be
wrong with a query before that, a name that is not known or a file that cannot be opened, does not come
up again while the rows are read.
-/

namespace FlatQuery.Rows

open Outcome

/-- Whether an error can show as late as when rows are read and computed with. -/
def Error.isLate : Error → Bool
  | catalog _ => false
  | unknownColumn _ => false
  | ambiguousColumn _ => false
  | file _ .isADirectory => true
  | file _ .invalidData => true
  | file _ _ => false
  | _ => true

/-- That an outcome, where it is a failure, is a late one. -/
def Late {α : Type} (x : Except Error α) : Prop :=
  FailsWith (fun e => e.isLate = true) x

variable {α β : Type}

theorem late_ok (a : α) : Late (.ok a : Except Error α) :=
  failsWith_ok a

theorem late_error {e : Error} (h : e.isLate = true) : Late (.error e : Except Error α) :=
  failsWith_error h

theorem Late.bind {x : Except Error α} {f : α → Except Error β} (hx : Late x)
    (hf : ∀ a, Late (f a)) : Late (x >>= f) :=
  FailsWith.bind hx fun a _ => hf a

theorem late_mapM {f : α → Except Error β} (h : ∀ x, Late (f x)) (xs : List α) : Late (xs.mapM f) :=
  failsWith_mapM fun x _ => h x

/-! ### Rows and terms -/

theorem late_get (r : Row) (i : Nat) : Late (r.get i) := by
  unfold Row.get
  split
  · exact late_ok _
  · exact late_error rfl

theorem late_pick (r : Row) (indexes : List Nat) : Late (r.pick indexes) :=
  (late_mapM (late_get r) indexes).bind fun _ => late_ok _

theorem late_integer (field : String) : Late (Row.integer field) := by
  unfold Row.integer
  split
  · exact late_ok _
  · exact late_error rfl

theorem late_literal (v : Literal) : Late v.value := by
  cases v with
  | integer n => exact late_ok n
  | string s => exact late_integer s

theorem late_operand (row : Row) (t : Term) : Late (t.operand row) := by
  induction t with
  | literal v => exact late_literal v
  | field i label => exact (late_get row i).bind late_integer
  | binary l op r => exact late_error rfl
  | nested t ih => exact ih
  | call text => exact late_error rfl

theorem late_holds (row : Row) (t : Term) : Late (t.holds row) := by
  induction t with
  | literal v => exact late_error rfl
  | field i label => exact late_error rfl
  | binary l op r ihl ihr =>
    rw [Term.holds]
    split
    · exact ihl.bind fun a => ihr.bind fun b => late_ok _
    · exact (late_operand row l).bind fun a => (late_operand row r).bind fun b => late_ok _
    · exact late_error rfl
  | nested t ih => exact ih
  | call text => exact late_error rfl

theorem late_summand (row : Row) (t : Term) : Late (t.summand row) := by
  induction t with
  | literal v => exact late_literal v
  | field i label => exact (late_get row i).bind late_integer
  | binary l op r ihl ihr =>
    cases op with
    | times =>
      rw [Term.summand]
      refine ihl.bind fun a => ihr.bind fun b => ?_
      split
      · exact late_ok _
      · exact late_error rfl
    | _ => exact late_error rfl
  | nested t ih => exact ih
  | call text => exact late_error rfl

theorem late_passes (on : Option Term) (row : Row) : Late (Term.passes on row) := by
  cases on with
  | none => exact late_ok true
  | some t => exact late_holds row t

/-! ### Groups and sort keys -/

theorem late_addSummands (row : Row) (ts : List Term) (sums : List Int) :
    Late (Group.addSummands row ts sums) := by
  induction ts generalizing sums with
  | nil => exact late_ok []
  | cons t ts ih =>
    cases sums with
    | nil => exact late_ok []
    | cons sum sums =>
      rw [Group.addSummands]
      refine (late_summand row t).bind fun n => ?_
      split
      · exact late_error rfl
      · exact (ih sums).bind fun rest => late_ok _

theorem late_addRow (spec : GroupSpec) (groups : List Group) (row : Row) :
    Late (spec.addRow groups row) := by
  have hadd : ∀ g : Group, Late (g.add spec row) := fun g =>
    (late_addSummands row spec.sums g.sums).bind fun sums => late_ok _
  refine (late_pick row spec.group).bind fun key => ?_
  induction groups with
  | nil => exact (late_pick row spec.shown).bind fun shown => (hadd _).bind fun g => late_ok _
  | cons g rest ih =>
    rw [GroupSpec.addToGroups]
    split
    · exact (hadd g).bind fun g' => late_ok _
    · exact ih.bind fun rest' => late_ok _

theorem late_sortRows (ks : List SortKey) (rows : List Row) : Late (sortRows ks rows) := by
  have hkey : ∀ (r : Row) (k : SortKey), Late (k.value r) := fun r k =>
    (late_get r k.index).bind late_integer
  refine (late_mapM (fun r => ?_) rows).bind fun keyed => late_ok _
  exact (late_mapM (hkey r) ks).bind fun keys => late_ok _

/-! ### What operators hand out -/

namespace Yield

/-- That the error which ends a yield, if one does, is a late one. -/
def EndsLate (y : Yield) : Prop :=
  ∀ e, y.error = some e → e.isLate = true

variable {y z : Yield}

theorem endsLate_ofList (rows : List Row) : (ofList rows).EndsLate := by
  intro e h
  cases h

theorem endsLate_fail {e : Error} (h : e.isLate = true) : (fail e).EndsLate := by
  intro e' h'
  cases h'
  exact h

theorem EndsLate.append (hy : y.EndsLate) (hz : z.EndsLate) : (y.append z).EndsLate := by
  obtain ⟨rows, _ | e⟩ := y
  · exact hz
  · exact hy

theorem EndsLate.bind {f : Row → Yield} (hy : y.EndsLate) (hf : ∀ row, (f row).EndsLate) :
    (y.bind f).EndsLate := by
  obtain ⟨rows, e⟩ := y
  induction rows with
  | nil => exact hy
  | cons row rows ih => exact (hf row).append (ih hy)

theorem endsLate_ofRows {outcome : Except Error (List Row)} (h : Late outcome) :
    (ofRows outcome).EndsLate := by
  cases outcome with
  | error e => exact endsLate_fail (h e rfl)
  | ok rows => exact endsLate_ofList rows

end Yield

theorem endsLate_tested (on : Option Term) (row : Row) : (tested on row).EndsLate := by
  have hpasses := late_passes on row
  unfold tested
  split
  · next e he => exact Yield.endsLate_fail (hpasses e he)
  · exact Yield.endsLate_ofList _
  · exact Yield.endsLate_ofList []

theorem endsLate_picked (indexes : List Nat) (row : Row) : (picked indexes row).EndsLate := by
  have hpick := late_pick row indexes
  unfold picked
  split
  · next e he => exact Yield.endsLate_fail (hpick e he)
  · exact Yield.endsLate_ofList _

/-- A gathering fails late if its steps do and what it gathers from does. -/
theorem late_gatheredRows {g : Gathering} (hstep : ∀ acc row, Late (g.step acc row))
    (hfinish : ∀ acc, Late (g.finish acc)) {y : Yield} (hy : y.EndsLate) :
    Late (gatheredRows g y) := by
  have hfold : Late (y.rows.foldlM g.step g.start) := failsWith_foldlM hstep y.rows g.start
  refine (hfold.bind fun acc => ?_).bind hfinish
  split
  · exact late_ok acc
  · next e he => exact late_error (hy e he)

theorem endsLate_lineRows (path : String) (ls : List (Option String)) :
    (lineRows path ls).EndsLate := by
  induction ls with
  | nil => exact Yield.endsLate_ofList []
  | cons l ls ih =>
    cases l with
    | none => exact Yield.endsLate_fail rfl
    | some line =>
      rw [lineRows]
      split
      · exact ih
      · exact ih

/-- The data file of a table, once it can be opened, is not found missing. -/
theorem endsLate_tableRows {fs : Files} {t : Table} (h : ∃ s, openTable fs t = .ok s) :
    (tableRows fs t).EndsLate := by
  obtain ⟨⟨node, offset, pending⟩, hopen⟩ := h
  rw [tableRows, hopen]
  cases node with
  | directory => exact Yield.endsLate_fail rfl
  | file id => exact endsLate_lineRows _ _

/-- **Only the rows can be wrong.**  Where all data files can be opened, an operator fails late. -/
theorem Operator.late_yield {fs : Files} (op : Operator)
    (h : ∀ t ∈ op.tables, ∃ s, openTable fs t = .ok s) : (op.yield fs).EndsLate := by
  induction op with
  | listed rows => exact Yield.endsLate_ofList rows
  | scan t => exact endsLate_tableRows (h t (List.mem_singleton_self t))
  | filter input on ih => exact (ih h).bind (endsLate_tested on)
  | project input indexes labels ih => exact (ih h).bind (endsLate_picked indexes)
  | join l r on ihl ihr =>
    have hl := ihl fun t ht => h t (List.mem_append_left _ ht)
    have hr := ihr fun t ht => h t (List.mem_append_right _ ht)
    exact hl.bind fun a => hr.bind fun b => endsLate_tested on (a.append b)
  | sort input keys ih =>
    exact Yield.endsLate_ofRows
      (late_gatheredRows (fun _ _ => late_ok _) (fun seen => late_sortRows keys _) (ih h))
  | groupSum input spec ih =>
    exact Yield.endsLate_ofRows
      (late_gatheredRows (late_addRow spec) (fun _ => late_ok _) (ih h))
  | distinct input ih =>
    exact Yield.endsLate_ofRows
      (late_gatheredRows (fun _ _ => late_ok _) (fun _ => late_ok _) (ih h))

end FlatQuery.Rows
