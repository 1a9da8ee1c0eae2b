import FlatQuery.Proofs.Query.Spelling
import FlatQuery.Proofs.Rows.Denotation

/-!
# Rows do not depend on how names are spelled

A term keeps the name of a function as it was written, to quote it when it is met; nothing else in
it is spelled.  So a tree of operators with the capitals of its terms made small hands out the same
rows, and fails where it failed, its complaint quoting the small letters (`Operator.yield_lowered`).
-/

namespace FlatQuery

open Outcome

/-- The term with the capitals of what it quotes made small. -/
def Term.lowered : Term → Term
  | literal v => literal v
  | field i label => field i label
  | binary l op r => binary l.lowered op r.lowered
  | nested t => nested t.lowered
  | call text => call (Name.lowered text)

namespace Rows

/-! ### Errors -/

/-- The error with the capitals of the term it quotes made small.  Names in errors are canonical,
and the values of fields are no names. -/
def Error.lowered : Error → Error
  | sumOverflow t => sumOverflow t.lowered
  | notCondition t => notCondition t.lowered
  | notOperand t => notOperand t.lowered
  | notSummand t => notSummand t.lowered
  | e => e

variable {α β : Type}

/-- That an outcome is no error that quotes a term. -/
def Plain (x : Except Error α) : Prop :=
  ∀ e, x = .error e → e.lowered = e

theorem plain_ok (a : α) : Plain (.ok a : Except Error α) := by
  intro e h
  cases h

theorem plain_error {e : Error} (h : e.lowered = e) : Plain (.error e : Except Error α) := by
  intro e' h'
  cases h'
  exact h

theorem Plain.bind {x : Except Error α} {f : α → Except Error β} (hx : Plain x)
    (hf : ∀ a, Plain (f a)) : Plain (x >>= f) := by
  cases x with
  | error e => exact plain_error (hx e rfl)
  | ok a => exact hf a

theorem plain_mapM {f : α → Except Error β} (h : ∀ x, Plain (f x)) (xs : List α) :
    Plain (xs.mapM f) := by
  induction xs with
  | nil => exact plain_ok []
  | cons x xs ih =>
    rw [List.mapM_cons]
    exact (h x).bind fun y => ih.bind fun ys => plain_ok _

theorem Plain.mapBoth {x : Except Error α} (h : Plain x) : mapBoth Error.lowered id x = x := by
  cases x with
  | error e => exact congrArg Except.error (h e rfl)
  | ok a => rfl

theorem Plain.mapBoth_bind {x : Except Error α} (hx : Plain x) {k k' : α → Except Error β}
    (h : ∀ a, k' a = Outcome.mapBoth Error.lowered id (k a)) :
    (x >>= k') = Outcome.mapBoth Error.lowered id (x >>= k) := by
  rw [Outcome.mapBoth_bind (g := id) h, hx.mapBoth]

theorem plain_resolve (s : Scope) (c : ColumnRef) : Plain (s.resolve c) := by
  simp only [Scope.resolve]
  split
  · split
    · split
      · exact plain_ok _
      · exact plain_error rfl
    · exact plain_error rfl
  · split
    · exact plain_ok _
    · exact plain_error rfl
  · split
    · exact plain_error rfl
    · exact plain_ok _
    · exact plain_error rfl

theorem plain_qualify (s : Scope) (c : ColumnRef) : Plain (s.qualify c) := by
  refine (plain_resolve s c).bind fun i => ?_
  split
  · exact plain_ok _
  · exact plain_error rfl

theorem plain_integer (value : String) : Plain (Row.integer value) := by
  unfold Row.integer
  split
  · exact plain_ok _
  · exact plain_error rfl

theorem plain_literal (v : Literal) : Plain v.value := by
  cases v with
  | integer n => exact plain_ok n
  | string s => exact plain_integer s

theorem plain_get (row : Row) (i : Nat) : Plain (row.get i) := by
  unfold Row.get
  split
  · exact plain_ok _
  · exact plain_error rfl

theorem plain_field (row : Row) (i : Nat) : Plain (row.get i >>= Row.integer) :=
  (plain_get row i).bind plain_integer

theorem plain_pick (row : Row) (indexes : List Nat) : Plain (row.pick indexes) :=
  (plain_mapM (plain_get row) indexes).bind fun _ => plain_ok _

theorem plain_sortRows (ks : List SortKey) (rows : List Row) : Plain (sortRows ks rows) := by
  refine (plain_mapM (fun row => ?_) rows).bind fun _ => plain_ok _
  exact (plain_mapM (fun k => plain_field row k.index) ks).bind fun _ => plain_ok _

end Rows

/-! ### Terms -/

namespace Term

open Rows

variable (row : Row)

theorem operand_lowered (t : Term) :
    t.lowered.operand row = mapBoth Error.lowered id (t.operand row) := by
  induction t with
  | literal v => exact (plain_literal v).mapBoth.symm
  | field i label => exact (plain_field row i).mapBoth.symm
  | binary l op r ihl ihr => rfl
  | nested t ih => exact ih
  | call text => rfl

theorem holds_lowered (t : Term) :
    t.lowered.holds row = mapBoth Error.lowered id (t.holds row) := by
  induction t with
  | literal v => rfl
  | field i label => rfl
  | binary l op r ihl ihr =>
    simp only [lowered, holds]
    cases op.connective? with
    | some join =>
      simp only [ihl, ihr]
      cases l.holds row with
      | error e => rfl
      | ok a => cases r.holds row <;> rfl
    | none =>
      cases op.comparison? with
      | none => rfl
      | some relation =>
        simp only [operand_lowered]
        cases l.operand row with
        | error e => rfl
        | ok a => cases r.operand row <;> rfl
  | nested t ih => exact ih
  | call text => rfl

theorem summand_lowered (t : Term) :
    t.lowered.summand row = mapBoth Error.lowered id (t.summand row) := by
  induction t with
  | literal v => exact (plain_literal v).mapBoth.symm
  | field i label => exact (plain_field row i).mapBoth.symm
  | binary l op r ihl ihr =>
    cases op with
    | times =>
      simp only [lowered, summand, ihl, ihr]
      cases l.summand row with
      | error e => rfl
      | ok a =>
        cases r.summand row with
        | error e => rfl
        | ok b =>
          simp only [mapBoth, id_eq, ok_bind]
          cases Integer.mul? a b <;> rfl
    | _ => rfl
  | nested t ih => exact ih
  | call text => rfl

theorem passes_lowered (on : Option Term) :
    passes (on.map lowered) row = mapBoth Error.lowered id (passes on row) := by
  cases on with
  | none => rfl
  | some t => exact holds_lowered row t

end Term

namespace Rows

/-! ### Groups -/

/-- What is summed, with the capitals of what it quotes made small. -/
def GroupSpec.lowered (spec : GroupSpec) : GroupSpec :=
  { spec with sums := spec.sums.map Term.lowered }

theorem addSummands_lowered (row : Row) (ts : List Term) (sums : List Int) :
    Group.addSummands row (ts.map Term.lowered) sums =
      mapBoth Error.lowered id (Group.addSummands row ts sums) := by
  induction ts generalizing sums with
  | nil => rfl
  | cons t ts ih =>
    cases sums with
    | nil => rfl
    | cons sum sums =>
      simp only [List.map_cons, Group.addSummands, Term.summand_lowered, ih]
      cases t.summand row with
      | error e => rfl
      | ok n =>
        simp only [mapBoth, id_eq, ok_bind]
        cases Integer.add? sum n with
        | none => rfl
        | some total => cases Group.addSummands row ts sums <;> rfl

theorem add_lowered (spec : GroupSpec) (g : Group) (row : Row) :
    g.add spec.lowered row = mapBoth Error.lowered id (g.add spec row) := by
  simp only [Group.add, GroupSpec.lowered, addSummands_lowered]
  cases Group.addSummands row spec.sums g.sums <;> rfl

theorem zeros_lowered (spec : GroupSpec) : spec.lowered.zeros = spec.zeros := by
  simp only [GroupSpec.zeros, GroupSpec.lowered, List.length_map]

theorem addToGroups_lowered (spec : GroupSpec) (key : List String) (row : Row)
    (groups : List Group) : spec.lowered.addToGroups key row groups =
      mapBoth Error.lowered id (spec.addToGroups key row groups) := by
  induction groups with
  | nil =>
    have hshown : spec.lowered.shown = spec.shown := rfl
    simp only [GroupSpec.addToGroups, zeros_lowered, hshown]
    refine (plain_pick row spec.shown).mapBoth_bind fun shown => ?_
    rw [add_lowered]
    cases Group.add spec _ row <;> rfl
  | cons g rest ih =>
    simp only [GroupSpec.addToGroups]
    split
    · rw [add_lowered]
      cases g.add spec row <;> rfl
    · rw [ih]
      cases spec.addToGroups key row rest <;> rfl

theorem addRow_lowered (spec : GroupSpec) (groups : List Group) (row : Row) :
    spec.lowered.addRow groups row = mapBoth Error.lowered id (spec.addRow groups row) := by
  have hgroup : spec.lowered.group = spec.group := rfl
  unfold GroupSpec.addRow
  rw [hgroup]
  exact (plain_pick row spec.group).mapBoth_bind fun key =>
    addToGroups_lowered spec key.fields row groups

theorem rows_lowered (spec : GroupSpec) (groups : List Group) :
    spec.lowered.rows groups = spec.rows groups := by
  unfold GroupSpec.rows
  rw [zeros_lowered]
  rfl

/-! ### What is handed out -/

namespace Yield

/-- What is handed out, the error at the end with the capitals of the term it quotes made small. -/
def lowered (y : Yield) : Yield :=
  ⟨y.rows, y.error.map Error.lowered⟩

theorem lowered_append (y z : Yield) : (y.append z).lowered = y.lowered.append z.lowered := by
  obtain ⟨rows, _ | e⟩ := y
  · rfl
  · rfl

theorem lowered_bind (y : Yield) (f : Row → Yield) :
    (y.bind f).lowered = y.lowered.bind fun row => (f row).lowered := by
  obtain ⟨rows, e⟩ := y
  induction rows with
  | nil => rfl
  | cons row rows ih =>
    show ((f row).append ((Yield.mk rows e).bind f)).lowered = _
    rw [lowered_append, ih]
    rfl

theorem lowered_ofRows (outcome : Except Error (List Row)) :
    ofRows (mapBoth Error.lowered id outcome) = (ofRows outcome).lowered := by
  cases outcome with
  | error e => rfl
  | ok rows => rfl

/-- A fold whose steps quote small letters fails where the fold over the rows as they were fails. -/
theorem fold_lowered {α : Type} {step step' : α → Row → Except Error α}
    (h : ∀ acc row, step' acc row = mapBoth Error.lowered id (step acc row)) (y : Yield)
    (acc : α) : y.lowered.fold step' acc = mapBoth Error.lowered id (y.fold step acc) := by
  obtain ⟨rows, e⟩ := y
  induction rows generalizing acc with
  | nil =>
    cases e with
    | none => rfl
    | some e => rfl
  | cons row rows ih =>
    have hcons : ∀ (s : α → Row → Except Error α) (e : Option Error),
        (Yield.mk (row :: rows) e).fold s acc = s acc row >>= (Yield.mk rows e).fold s := by
      intro s e
      unfold Yield.fold
      rw [List.foldlM_cons]
      cases s acc row <;> rfl
    show (Yield.mk (row :: rows) (e.map Error.lowered)).fold step' acc = _
    rw [hcons, hcons, h]
    exact (Outcome.mapBoth_bind (g := id) ih (step acc row)).symm

end Yield

/-- What a gathering makes of its input, if neither its steps nor its end quote a term. -/
theorem gatheredRows_lowered {g : Gathering} (hstep : ∀ acc row, Plain (g.step acc row))
    (hfinish : ∀ acc, Plain (g.finish acc)) (y : Yield) :
    gatheredRows g y.lowered = mapBoth Error.lowered id (gatheredRows g y) := by
  have hfold := Yield.fold_lowered (fun acc row => (hstep acc row).mapBoth.symm) y g.start
  unfold gatheredRows
  rw [hfold]
  exact (Outcome.mapBoth_bind (g := id) (fun acc => (hfinish acc).mapBoth.symm) _).symm

theorem gatheredRows_grouping_lowered (spec : GroupSpec) (y : Yield) :
    gatheredRows (grouping spec.lowered) y.lowered =
      mapBoth Error.lowered id (gatheredRows (grouping spec) y) := by
  have hfold : y.lowered.fold spec.lowered.addRow [] =
      mapBoth Error.lowered id (y.fold spec.addRow []) :=
    Yield.fold_lowered (addRow_lowered spec) y []
  have hfinish : ∀ groups, (Except.ok (spec.lowered.rows groups) : Except Error (List Row)) =
      mapBoth Error.lowered id (.ok (spec.rows groups)) := fun groups =>
    congrArg Except.ok (rows_lowered spec groups)
  show (y.lowered.fold spec.lowered.addRow [] >>= fun groups => .ok (spec.lowered.rows groups)) = _
  rw [hfold]
  exact (Outcome.mapBoth_bind (g := id) hfinish _).symm

theorem tested_lowered (on : Option Term) (row : Row) :
    tested (on.map Term.lowered) row = (tested on row).lowered := by
  unfold tested
  rw [Term.passes_lowered]
  cases Term.passes on row with
  | error e => rfl
  | ok holds =>
    cases holds with
    | true => rfl
    | false => rfl

theorem picked_lowered (indexes : List Nat) (row : Row) :
    (picked indexes row).lowered = picked indexes row := by
  unfold picked
  cases hpick : row.pick indexes with
  | error e => exact congrArg Yield.fail (plain_pick row indexes e hpick)
  | ok out => rfl

theorem lineRows_lowered (path : String) (ls : List (Option String)) :
    (lineRows path ls).lowered = lineRows path ls := by
  induction ls with
  | nil => rfl
  | cons l ls ih =>
    cases l with
    | none => rfl
    | some line =>
      rw [lineRows]
      split
      · exact ih
      · exact congrArg (Yield.cons _) ih

theorem tableRows_lowered (fs : Files) (t : Table) : (tableRows fs t).lowered = tableRows fs t := by
  unfold tableRows
  cases hopen : openTable fs t with
  | error e =>
    obtain ⟨cause, rfl⟩ := openTable_error hopen
    rfl
  | ok h =>
    simp only [handleRows]
    split
    · rfl
    · exact lineRows_lowered _ _

namespace Operator

/-- The operator with the capitals of what its terms quote made small. -/
def lowered : Operator → Operator
  | listed rows => listed rows
  | scan t => scan t
  | filter input on => filter input.lowered (on.map Term.lowered)
  | project input indexes labels => project input.lowered indexes labels
  | join left right on => join left.lowered right.lowered (on.map Term.lowered)
  | sort input keys => sort input.lowered keys
  | groupSum input spec => groupSum input.lowered spec.lowered
  | distinct input => distinct input.lowered

/-- **Spelling does not matter to rows.** -/
theorem yield_lowered (fs : Files) (op : Operator) :
    op.lowered.yield fs = (op.yield fs).lowered := by
  induction op with
  | listed rows => rfl
  | scan t => exact (tableRows_lowered fs t).symm
  | filter input on ih =>
    simp only [lowered, yield]
    rw [ih, Yield.lowered_bind]
    exact congrArg _ (funext fun row => tested_lowered on row)
  | project input indexes labels ih =>
    simp only [lowered, yield]
    rw [ih, Yield.lowered_bind]
    exact congrArg _ (funext fun row => (picked_lowered indexes row).symm)
  | join l r on ihl ihr =>
    simp only [lowered, yield]
    rw [ihl, ihr, Yield.lowered_bind]
    refine congrArg _ (funext fun a => ?_)
    rw [Yield.lowered_bind]
    exact congrArg _ (funext fun b => tested_lowered on (a.append b))
  | sort input keys ih =>
    simp only [lowered, yield]
    rw [ih, gatheredRows_lowered (fun acc row => plain_ok _) (fun acc => plain_sortRows keys _),
      Yield.lowered_ofRows]
  | groupSum input spec ih =>
    simp only [lowered, yield]
    rw [ih, gatheredRows_grouping_lowered, Yield.lowered_ofRows]
  | distinct input ih =>
    simp only [lowered, yield]
    rw [ih, gatheredRows_lowered (fun acc row => plain_ok _) (fun acc => plain_ok _),
      Yield.lowered_ofRows]

end Operator

end Rows

end FlatQuery
