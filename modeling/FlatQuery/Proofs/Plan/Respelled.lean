import FlatQuery.Proofs.Plan.Prepared
import FlatQuery.Proofs.Plan.RowOrder
import FlatQuery.Proofs.Rows.Respelled

/-!
# The case of names does not matter

Each step of planning commutes with making the capitals of names small: what a step makes of the
small letters is what it made of the query as it was written, with its capitals made small
(`ofSelect_lowered`).  Labels have none (`labels_lowered`), and rows do not depend on them.  So two
queries that differ in capitals only are both refused or both planned, and hand out the same rows
(`prepare_respelled`).
-/

namespace FlatQuery

open Rows Outcome

/-! ### Errors -/

/-- The error with the capitals of the name it quotes made small. -/
def Catalog.Error.lowered : Catalog.Error → Catalog.Error
  | tableNotFound name => tableNotFound (Name.lowered name)
  | e => e

/-- The error with the capitals of what it quotes made small.  Labels and columns in errors are
canonical. -/
def Plan.Error.lowered : Plan.Error → Plan.Error
  | wrongArguments function call => wrongArguments function call.lowered
  | sourceUnsupported text => sourceUnsupported (Name.lowered text)
  | orderUnsupported e => orderUnsupported e.lowered
  | catalog cause => catalog cause.lowered
  | rows cause => rows cause.lowered
  | e => e

/-! ### The SELECT list -/

/-- The aggregate with the capitals of its argument made small. -/
def Aggregate.lowered (a : Aggregate) : Aggregate :=
  { a with argument := a.argument.map (·.lowered) }

@[simp] theorem Aggregate.label_lowered (a : Aggregate) : a.lowered.label = a.label := by
  obtain ⟨function, _ | e⟩ := a
  · rfl
  · refine Name.canonical_eq_of_lowered ?_
    simp only [lowered, Option.map_some, Option.elim_some, Name.lowered_append, Expr.text_lowered]

namespace SelectList

/-- The list with the capitals of the arguments of its aggregates made small. -/
def lowered : SelectList → SelectList
  | star table => star table
  | listed columns groupBy aggregates => listed columns groupBy (aggregates.map (·.lowered))

theorem ofName_lowered (name : String) :
    AggregateFunction.ofName? (Name.lowered name) = AggregateFunction.ofName? name := by
  unfold AggregateFunction.ofName?
  rw [Name.canonical_lowered]

theorem aggregate_lowered (e : Expr) : aggregate? e.lowered =
    mapBoth Plan.Error.lowered (Option.map Aggregate.lowered) (aggregate? e) := by
  cases e with
  | call name args =>
    rw [Expr.lowered]
    unfold aggregate?
    simp only []
    rw [ofName_lowered]
    generalize AggregateFunction.ofName? name = f?
    rcases f? with _ | f
    · rfl
    · rcases args with _ | ⟨_ | _, _ | ⟨b, rest⟩⟩
      · cases f <;> rfl
      · cases f <;> rfl
      · cases f <;> rfl
      · cases f <;> rfl
      · cases f <;> rfl
  | _ => rfl

theorem groupColumns_lowered (es : List Expr) : groupColumns (es.map (·.lowered)) =
    mapBoth Plan.Error.lowered id (groupColumns es) := by
  induction es with
  | nil => rfl
  | cons e es ih =>
    cases e with
    | column c =>
      show (groupColumns (es.map (·.lowered)) >>= fun cs => pure (c.lowered.canonical :: cs)) =
        mapBoth _ id (groupColumns es >>= fun cs => pure (c.canonical :: cs))
      rw [ih, ColumnRef.canonical_lowered]
      cases groupColumns es <;> rfl
    | _ => rfl

theorem isAggregateItem_lowered (item : SelectItem) :
    isAggregateItem item.lowered = isAggregateItem item := by
  cases item with
  | expr e =>
    cases e with
    | call name args =>
      simp only [SelectItem.lowered, Expr.lowered, isAggregateItem, ofName_lowered]
    | _ => rfl
  | _ => rfl

theorem starTable_lowered (item : SelectItem) : starTable? item.lowered = starTable? item := by
  cases item with
  | tableStar t =>
    simp only [SelectItem.lowered, starTable?, Name.canonical_lowered]
  | _ => rfl

/-- Columns, and aggregates with the capitals of their arguments made small. -/
def loweredParts (parts : List ColumnRef × List Aggregate) : List ColumnRef × List Aggregate :=
  (parts.1, parts.2.map (·.lowered))

theorem split_lowered (withAggregates after : Bool) (items : List SelectItem) :
    split withAggregates after (items.map (·.lowered)) =
      mapBoth Plan.Error.lowered loweredParts (split withAggregates after items) := by
  induction items generalizing after with
  | nil => rfl
  | cons item rest ih =>
    rw [List.map_cons]
    cases item with
    | star => cases withAggregates <;> rfl
    | tableStar t => cases withAggregates <;> rfl
    | expr e =>
      rw [split.eq_def withAggregates after (.expr e :: rest), SelectItem.lowered, split.eq_def]
      simp only []
      rw [aggregate_lowered]
      refine (mapBoth_bind (fun aggregate => ?_) (aggregate? e)).symm
      cases aggregate with
      | some a =>
        simp only [Option.map_some]
        rw [ih]
        cases split withAggregates true rest <;> rfl
      | none =>
        cases e with
        | column c =>
          cases after with
          | true => rfl
          | false =>
            have hcolumn : Expr.lowered (.column c) = .column c.lowered := rfl
            simp only [Option.map_none, hcolumn, Bool.false_eq_true, if_false]
            rw [ih, ColumnRef.canonical_lowered]
            cases split withAggregates false rest <;> rfl
        | _ => rfl

theorem isGrouped_lowered (list : SelectList) : list.lowered.isGrouped = list.isGrouped := by
  cases list with
  | star table => rfl
  | listed columns groupBy aggregates =>
    simp only [lowered, isGrouped, List.isEmpty_map]

theorem any_isAggregateItem_lowered (items : List SelectItem) :
    (items.map (·.lowered)).any isAggregateItem = items.any isAggregateItem := by
  rw [List.any_map]
  exact congrArg (items.any ·) (funext isAggregateItem_lowered)

/-- The list that columns and aggregates make under GROUP BY. -/
def covered (keys : List ColumnRef) (parts : List ColumnRef × List Aggregate) :
    Except Plan.Error SelectList :=
  match parts.1.find? (!keys.contains ·) with
  | some missing =>
    if keys.isEmpty then .ok (.listed parts.1 keys parts.2) else .error (.notGrouped missing)
  | none => .ok (.listed parts.1 keys parts.2)

theorem covered_lowered (keys : List ColumnRef) (parts : List ColumnRef × List Aggregate) :
    covered keys (loweredParts parts) =
      mapBoth Plan.Error.lowered lowered (covered keys parts) := by
  obtain ⟨columns, aggregates⟩ := parts
  simp only [covered, loweredParts]
  cases columns.find? (!keys.contains ·) with
  | none => rfl
  | some missing => cases keys.isEmpty <;> rfl

theorem analyse_lowered (items : List SelectItem) (groupBy : List Expr) :
    analyse (items.map (·.lowered)) (groupBy.map (·.lowered)) =
      mapBoth Plan.Error.lowered lowered (analyse items groupBy) := by
  cases items with
  | nil => rfl
  | cons first rest =>
    have hany := any_isAggregateItem_lowered (first :: rest)
    have hsplit := split_lowered ((first :: rest).any isAggregateItem) false (first :: rest)
    rw [List.map_cons] at hany hsplit ⊢
    unfold analyse
    simp only []
    rw [groupColumns_lowered, starTable_lowered, hany, hsplit]
    refine (mapBoth_bind (fun keys => ?_) (groupColumns groupBy)).symm
    have hcovered := mapBoth_bind (covered_lowered keys)
      (split ((first :: rest).any isAggregateItem) false (first :: rest))
    cases starTable? first with
    | none => exact hcovered.symm
    | some table =>
      cases rest with
      | nil =>
        cases keys with
        | nil => rfl
        | cons key keys => rfl
      | cons item rest => exact hcovered.symm

end SelectList

namespace Scope

/-- The full form of an expression has no capitals but those of function names. -/
theorem qualifyExpr_column_lowered (ts : List Table) (c : ColumnRef) :
    (ofTables ts).qualifyExpr (.column c.lowered) =
      mapBoth Rows.Error.lowered Expr.lowered ((ofTables ts).qualifyExpr (.column c)) := by
  rw [qualifyExpr, qualifyExpr, qualify_lowered]
  have hplain := plain_qualify (ofTables ts) c
  cases hq : (ofTables ts).qualify c with
  | error e => exact congrArg Except.error (hplain e hq).symm
  | ok q => exact congrArg (fun c => Except.ok (Expr.column c)) (lowered_of_qualify hq).symm

mutual

theorem qualifyExpr_lowered (ts : List Table) (e : Expr) : (ofTables ts).qualifyExpr e.lowered =
    mapBoth Rows.Error.lowered Expr.lowered ((ofTables ts).qualifyExpr e) := by
  cases e with
  | column c => exact qualifyExpr_column_lowered ts c
  | literal v => rfl
  | binary l op r =>
    rw [Expr.lowered, qualifyExpr, qualifyExpr, qualifyExpr_lowered ts l, qualifyExpr_lowered ts r]
    refine (mapBoth_bind (fun l' => ?_) _).symm
    refine (mapBoth_bind (fun r' => ?_) _).symm
    rfl
  | call name args =>
    rw [Expr.lowered, qualifyExpr, qualifyExpr, qualifyArguments_lowered ts args]
    refine (mapBoth_bind (fun args' => ?_) _).symm
    rfl
  | nested e =>
    rw [Expr.lowered, qualifyExpr, qualifyExpr, qualifyExpr_lowered ts e]
    refine (mapBoth_bind (fun e' => ?_) _).symm
    rfl

theorem qualifyArguments_lowered (ts : List Table) (args : List Argument) :
    (ofTables ts).qualifyArguments (Expr.loweredArguments args) =
      mapBoth Rows.Error.lowered Expr.loweredArguments ((ofTables ts).qualifyArguments args) := by
  match args with
  | [] => rfl
  | a :: rest =>
    rw [Expr.loweredArguments, qualifyArguments, qualifyArguments, qualifyArgument_lowered ts a,
      qualifyArguments_lowered ts rest]
    refine (mapBoth_bind (fun a' => ?_) _).symm
    refine (mapBoth_bind (fun rest' => ?_) _).symm
    rfl

theorem qualifyArgument_lowered (ts : List Table) (a : Argument) :
    (ofTables ts).qualifyArgument (Expr.loweredArgument a) =
      mapBoth Rows.Error.lowered Expr.loweredArgument ((ofTables ts).qualifyArgument a) := by
  cases a with
  | expr e =>
    rw [Expr.loweredArgument, qualifyArgument, qualifyArgument, qualifyExpr_lowered ts e]
    refine (mapBoth_bind (fun e' => ?_) _).symm
    rfl
  | star => rfl

end

/-- What a reference is bound to keeps its label, which has no capitals. -/
theorem bind_lowered (s : Scope) (e : Expr) :
    mapBoth Rows.Error.lowered Term.lowered (s.bind e.lowered) =
      mapBoth Rows.Error.lowered Term.lowered (s.bind e) := by
  induction e using Expr.shallow with
  | column c =>
    rw [Expr.lowered, bind, bind, resolve_lowered, ColumnRef.label_lowered]
  | literal v => rfl
  | binary l op r ihl ihr =>
    refine mapBoth_bind_congr ihl fun t t' ht => ?_
    refine mapBoth_bind_congr ihr fun u u' hu => ?_
    simp only [pure, Except.pure, mapBoth, Term.lowered, ht, hu]
  | nested e ih =>
    refine mapBoth_bind_congr ih fun t t' ht => ?_
    simp only [pure, Except.pure, mapBoth, Term.lowered, ht]
  | call name args =>
    have htext := Expr.text_lowered (.call name args)
    rw [Expr.lowered] at htext ⊢
    exact congrArg (fun text => Except.ok (Term.call text)) htext

theorem bind?_lowered (s : Scope) (on : Option Expr) :
    mapBoth Rows.Error.lowered (Option.map Term.lowered) (s.bind? (on.map (·.lowered))) =
      mapBoth Rows.Error.lowered (Option.map Term.lowered) (s.bind? on) := by
  cases on with
  | none => rfl
  | some e =>
    refine mapBoth_bind_congr (s.bind_lowered e) fun t t' ht => ?_
    simp only [pure, Except.pure, mapBoth, Option.map_some, ht]

theorem mapM_bind_lowered (s : Scope) (es : List Expr) :
    mapBoth Rows.Error.lowered (List.map Term.lowered) ((es.map (·.lowered)).mapM s.bind) =
      mapBoth Rows.Error.lowered (List.map Term.lowered) (es.mapM s.bind) := by
  induction es with
  | nil => rfl
  | cons e es ih =>
    rw [List.map_cons, List.mapM_cons, List.mapM_cons]
    refine mapBoth_bind_congr (s.bind_lowered e) fun t t' ht => ?_
    refine mapBoth_bind_congr ih fun ts ts' hts => ?_
    simp only [pure, Except.pure, mapBoth, List.map_cons, ht, hts]

end Scope

/-! ### Plans -/

/-- The conjuncts with the capitals of their names made small. -/
def Conjuncts.lowered (c : Conjuncts) : Conjuncts :=
  ⟨c.pending.map (·.lowered)⟩

namespace Conjuncts

theorem take_lowered {p : Expr → Bool} (hp : ∀ e : Expr, p e.lowered = p e) (c : Conjuncts) :
    c.lowered.take p = ((c.take p).1.map (·.lowered), (c.take p).2.lowered) := by
  have hfilter : ∀ p : Expr → Bool, (∀ e : Expr, p e.lowered = p e) →
      (c.pending.map (·.lowered)).filter p = (c.pending.filter p).map (·.lowered) := by
    intro p hp
    rw [List.filter_map]
    exact congrArg (fun p => (c.pending.filter p).map (·.lowered)) (funext hp)
  simp only [take, lowered]
  rw [hfilter p hp, hfilter (!p ·) fun e => congrArg (!·) (hp e)]

theorem ofCondition_lowered (condition : Option Expr) :
    ofCondition (condition.map (·.lowered)) = (ofCondition condition).lowered := by
  cases condition with
  | none => rfl
  | some e => exact congrArg Conjuncts.mk e.conjuncts_lowered

theorem takeTable_lowered (table : String) (c : Conjuncts) : c.lowered.takeTable table =
    ((c.takeTable table).1.map (·.lowered), (c.takeTable table).2.lowered) :=
  take_lowered (fun e => by rw [mentionsOnly, mentionsOnly, Expr.tables_lowered]) c

theorem takeJoin_lowered (left : List String) (right : String) (c : Conjuncts) :
    c.lowered.takeJoin left right =
      ((c.takeJoin left right).1.map (·.lowered), (c.takeJoin left right).2.lowered) :=
  take_lowered (fun e => by rw [connects, connects, Expr.tables_lowered]) c

theorem takeAll_lowered (c : Conjuncts) :
    c.lowered.takeAll = (c.takeAll.1.map (·.lowered), c.takeAll.2.lowered) :=
  take_lowered (fun _ => rfl) c

end Conjuncts

namespace Plan

/-- The plan with the capitals of the names in its expressions made small. -/
def lowered : Plan → Plan
  | scan t => scan t
  | select input t condition => select input.lowered t condition.lowered
  | join left right condition => join left.lowered right.lowered (condition.map (·.lowered))
  | filter input condition => filter input.lowered condition.lowered
  | groupSum input groupBy shown sums sumLabels =>
    groupSum input.lowered groupBy shown (sums.map (·.lowered)) sumLabels
  | project input columns => project input.lowered columns
  | distinct input => distinct input.lowered
  | sort input keys => sort input.lowered keys

@[simp] theorem labels_lowered (p : Plan) : p.lowered.labels = p.labels := by
  induction p with
  | scan t => rfl
  | select input t on ih => exact ih
  | join l r on ihl ihr => exact congrArg₂ (· ++ ·) ihl ihr
  | filter input on ih => exact ih
  | groupSum input keys shown sums labels ih => rfl
  | project input columns ih => rfl
  | distinct input ih => exact ih
  | sort input keys ih => exact ih

@[simp] theorem tables_lowered (p : Plan) : p.lowered.tables = p.tables := by
  induction p with
  | scan t => rfl
  | select input t on ih => exact ih
  | join l r on ihl ihr => exact congrArg₂ (· ++ ·) ihl ihr
  | filter input on ih => exact ih
  | groupSum input keys shown sums labels ih => exact ih
  | project input columns ih => exact ih
  | distinct input ih => exact ih
  | sort input keys ih => exact ih

/-! ### Planning -/

variable {catalog : Catalog}

theorem sourceTables_lowered (catalog : Catalog) (seen : List String) (sources : List Source) :
    sourceTables catalog seen (sources.map (·.lowered)) =
      mapBoth Error.lowered id (sourceTables catalog seen sources) := by
  induction sources generalizing seen with
  | nil => rfl
  | cons source rest ih =>
    cases source with
    | other text => rfl
    | table name =>
      have hfind : catalog.find? (Name.lowered name) = catalog.find? name := by
        unfold Catalog.find?
        rw [Name.canonical_lowered]
      rw [List.map_cons, Source.lowered, sourceTables, sourceTables, Catalog.get, Catalog.get,
        hfind]
      cases catalog.find? name with
      | none => rfl
      | some t =>
        simp only []
        split
        · rfl
        · rw [ih]
          cases sourceTables catalog (t.name :: seen) rest <;> rfl

theorem selection_lowered (t : Table) (conditions : List Expr) :
    selection t (conditions.map (·.lowered)) = (selection t conditions).lowered := by
  unfold selection
  rw [Expr.conjunction_lowered]
  cases Expr.conjunction? conditions <;> rfl

/-- Tables and plans, with the capitals of names made small. -/
def loweredInputs (inputs : List (Table × Plan)) : List (Table × Plan) :=
  inputs.map fun input => (input.1, input.2.lowered)

theorem selections_lowered (c : Conjuncts) (ts : List Table) : selections c.lowered ts =
    (loweredInputs (selections c ts).1, (selections c ts).2.lowered) := by
  induction ts generalizing c with
  | nil => rfl
  | cons t ts ih =>
    simp only [selections, Conjuncts.takeTable_lowered, ih, selection_lowered]
    rfl

theorem joins_lowered (left : List String) (p : Plan) (c : Conjuncts)
    (inputs : List (Table × Plan)) : joins left p.lowered c.lowered (loweredInputs inputs) =
      ((joins left p c inputs).1.lowered, (joins left p c inputs).2.lowered) := by
  induction inputs generalizing left p c with
  | nil => rfl
  | cons input inputs ih =>
    obtain ⟨t, right⟩ := input
    have hinputs : loweredInputs ((t, right) :: inputs) =
        (t, right.lowered) :: loweredInputs inputs := rfl
    rw [hinputs]
    simp only [joins, Conjuncts.takeJoin_lowered, Expr.conjunction_lowered]
    exact ih (left ++ [t.name]) (.join p right _) _

def fullCondition (tables : List Table) : Option Expr → Except Error (Option Expr)
  | none => .ok none
  | some e =>
    match (Scope.ofTables tables).qualifyExpr e with
    | .ok q => .ok (some q)
    | .error e => .error (.rows e)

/-- The joined tables under a condition whose columns are in full. -/
def joinedTables (tables : List Table) (condition : Option Expr) : Except Error Plan :=
  match selections (.ofCondition condition) tables with
  | ([], _) => .error .noSource
  | ((first, plan) :: rest, c) =>
    let (plan, c) := joins [first.name] plan c rest
    match Expr.conjunction? c.takeAll.1 with
    | some e => .ok (.filter plan e)
    | none => .ok plan

theorem base_eq (tables : List Table) (condition : Option Expr) :
    base tables condition = fullCondition tables condition >>= joinedTables tables := by
  unfold base fullCondition
  cases condition with
  | none => rfl
  | some e =>
    simp only []
    cases (Scope.ofTables tables).qualifyExpr e with
    | error e => rfl
    | ok q => rfl

theorem fullCondition_lowered (tables : List Table) (condition : Option Expr) :
    fullCondition tables (condition.map (·.lowered)) =
      mapBoth Error.lowered (Option.map Expr.lowered) (fullCondition tables condition) := by
  cases condition with
  | none => rfl
  | some e =>
    simp only [Option.map_some, fullCondition, Scope.qualifyExpr_lowered]
    cases (Scope.ofTables tables).qualifyExpr e <;> rfl

theorem joinedTables_lowered (tables : List Table) (condition : Option Expr) :
    joinedTables tables (condition.map (·.lowered)) =
      mapBoth Error.lowered lowered (joinedTables tables condition) := by
  unfold joinedTables
  rw [Conjuncts.ofCondition_lowered, selections_lowered]
  rcases selections (.ofCondition condition) tables with ⟨_ | ⟨⟨first, p⟩, rest⟩, c⟩
  · rfl
  · simp only [loweredInputs, List.map_cons]
    rw [← loweredInputs, joins_lowered]
    simp only [Conjuncts.takeAll_lowered, Expr.conjunction_lowered]
    cases Expr.conjunction? (joins [first.name] p c rest).2.takeAll.1 <;> rfl

theorem base_lowered (tables : List Table) (condition : Option Expr) :
    base tables (condition.map (·.lowered)) =
      mapBoth Error.lowered lowered (base tables condition) := by
  rw [base_eq, base_eq, fullCondition_lowered]
  exact (mapBoth_bind (joinedTables_lowered tables) _).symm

/-- The arguments of sums with the capitals of names made small, and their labels. -/
def loweredSums (sums : List Expr × List String) : List Expr × List String :=
  (sums.1.map (·.lowered), sums.2)

theorem sumsOf_lowered (aggregates : List Aggregate) : sumsOf (aggregates.map (·.lowered)) =
    mapBoth Error.lowered loweredSums (sumsOf aggregates) := by
  induction aggregates with
  | nil => rfl
  | cons a rest ih =>
    have hlabel := a.label_lowered
    obtain ⟨function, argument⟩ := a
    cases function with
    | count =>
      rw [List.map_cons]
      exact congrArg (fun label => Except.error (Error.aggregateUnsupported label)) hlabel
    | sum =>
      cases argument with
      | none => rfl
      | some e =>
        have hcons : ∀ (e : Expr) (rest : List Aggregate), sumsOf (⟨.sum, some e⟩ :: rest) =
            (sumsOf rest >>= fun sums =>
              pure (e :: sums.1, Aggregate.label ⟨.sum, some e⟩ :: sums.2)) := fun _ _ => rfl
        have hlabel' : Aggregate.label ⟨.sum, some e.lowered⟩ = Aggregate.label ⟨.sum, some e⟩ :=
          hlabel
        show sumsOf (⟨.sum, some e.lowered⟩ :: rest.map (·.lowered)) = _
        rw [hcons, hcons, ih, hlabel']
        cases sumsOf rest <;> rfl

theorem selected_lowered (list : SelectList) (tables : List Table) (input : Plan) :
    selected list.lowered tables input.lowered =
      mapBoth Error.lowered lowered (selected list tables input) := by
  cases list with
  | star table =>
    cases table with
    | none => rfl
    | some name =>
      simp only [SelectList.lowered, selected]
      cases tables.find? (·.name == name) with
      | none => rfl
      | some t =>
        simp only []
        split <;> rfl
  | listed columns groupBy aggregates =>
    have hgrouped := SelectList.isGrouped_lowered (.listed columns groupBy aggregates)
    rw [SelectList.lowered] at hgrouped ⊢
    rw [selected, selected, hgrouped]
    split
    · rw [grouped, grouped, sumsOf_lowered]
      cases sumsOf aggregates <;> rfl
    · rfl

theorem orderLabel_lowered (e : Expr) :
    orderLabel e.lowered = mapBoth Error.lowered id (orderLabel e) := by
  cases e with
  | column c => exact congrArg Except.ok c.label_lowered
  | call name args =>
    rw [Expr.lowered]
    unfold orderLabel
    simp only [Name.canonical_lowered]
    split
    · rcases args with _ | ⟨a, _ | ⟨b, rest⟩⟩
      · rfl
      · cases a with
        | star => rfl
        | expr e =>
          exact congrArg Except.ok
            (Aggregate.label_lowered { function := .sum, argument := some e })
      · cases a <;> rfl
    · rfl
  | _ => rfl

theorem orderKeys_lowered (items : List OrderItem) (labels : List String) :
    orderKeys (items.map (·.lowered)) labels =
      mapBoth Error.lowered id (orderKeys items labels) := by
  have hkey : ∀ item : OrderItem, orderKey labels item.lowered =
      mapBoth Error.lowered id (orderKey labels item) := by
    intro item
    unfold orderKey
    rw [OrderItem.lowered, orderLabel_lowered]
    refine (mapBoth_bind (fun label => ?_) _).symm
    simp only [id_eq]
    cases fieldOf? labels label <;> rfl
  have hmap := mapBoth_mapM hkey items
  rw [List.map_id_fun] at hmap
  exact hmap

theorem deduplicated_lowered (distinct : Bool) (p : Plan) :
    deduplicated distinct p.lowered = (deduplicated distinct p).lowered := by
  cases distinct with
  | true => rfl
  | false => rfl

theorem ordered_lowered (items : List OrderItem) (p : Plan) :
    ordered (items.map (·.lowered)) p.lowered =
      mapBoth Error.lowered lowered (ordered items p) := by
  unfold ordered
  rw [List.isEmpty_map]
  split
  · rfl
  · rw [labels_lowered, orderKeys_lowered]
    cases orderKeys items p.labels <;> rfl

/-- **Planning commutes with making capitals small.** -/
theorem ofSelect_lowered (catalog : Catalog) (q : Select) :
    ofSelect catalog q.lowered = mapBoth Error.lowered lowered (ofSelect catalog q) := by
  obtain ⟨distinct, items, sources, condition, groupBy, orderBy⟩ := q
  unfold ofSelect
  simp only [Select.lowered, SelectList.analyse_lowered]
  refine (mapBoth_bind (fun list => ?_) _).symm
  cases sources with
  | nil => rfl
  | cons source sources =>
    show (sourceTables catalog [] ((source :: sources).map (·.lowered)) >>= fun tables => _) =
      mapBoth _ lowered (sourceTables catalog [] (source :: sources) >>= fun tables => _)
    rw [sourceTables_lowered]
    refine (mapBoth_bind (g := id) (fun tables => ?_) _).symm
    rw [id_eq, base_lowered]
    refine (mapBoth_bind (fun joined => ?_) _).symm
    rw [selected_lowered]
    refine (mapBoth_bind (fun chosen => ?_) _).symm
    rw [deduplicated_lowered, ordered_lowered]

/-! ### Setting up -/

/-- The operators of a plan, if its data files can be opened and its columns bound, in that
order. -/
def opened (fs : Files) : Plan → Except Rows.Error Operator
  | .scan t => do
    let _ ← openTable fs t
    return .scan t
  | .select input t on => do
    return .filter (← input.opened fs) (← (Scope.ofTable t).bind? (some on))
  | .join left right on => do
    return .join (← left.opened fs) (← right.opened fs)
      (← (Scope.ofTables (left.tables ++ right.tables)).bind? on)
  | .filter input on => do
    return .filter (← input.opened fs) (← (Scope.ofTables input.tables).bind? (some on))
  | .groupSum input groupBy shown sums _ => do
    let scope := Scope.ofTables input.tables
    let op ← input.opened fs
    let group ← groupBy.mapM scope.resolve
    let shown ← shown.mapM scope.resolve
    let sums ← sums.mapM scope.bind
    return .groupSum op { group, shown, sums }
  | .project input columns => do
    return .project (← input.opened fs) (← columns.mapM (Scope.ofTables input.tables).resolve)
      (columns.map (·.label))
  | .distinct input => do return .distinct (← input.opened fs)
  | .sort input keys => do return .sort (← input.opened fs) (keys.map sortKey)

/-- The operators of a cursor that could be set up. -/
def operators (x : Except Rows.Error Cursor) : Except Rows.Error Operator :=
  x >>= fun c => .ok c.op

theorem operators_instantiate (fs : Files) (p : Plan) :
    operators (p.instantiate fs) = p.opened fs := by
  -- node by node; states are dropped, so only the errors of the two sides have to be compared
  induction p with
  | scan t =>
    simp only [instantiate, opened, Cursor.scan]
    cases openTable fs t <;> rfl
  | select input t on ih =>
    simp only [instantiate, opened, ← ih, operators]
    cases input.instantiate fs with
    | error e => rfl
    | ok c =>
      simp only [ok_bind, Cursor.filter]
      cases (Scope.ofTable t).bind? (some on) <;> rfl
  | join l r on ihl ihr =>
    simp only [instantiate, opened, ← ihl, ← ihr, operators]
    cases l.instantiate fs with
    | error e => rfl
    | ok c =>
      cases r.instantiate fs with
      | error e => rfl
      | ok d =>
        simp only [ok_bind, Cursor.join]
        cases (Scope.ofTables (l.tables ++ r.tables)).bind? on <;> rfl
  | filter input on ih =>
    simp only [instantiate, opened, ← ih, operators]
    cases input.instantiate fs with
    | error e => rfl
    | ok c =>
      simp only [ok_bind, Cursor.filter]
      cases (Scope.ofTables input.tables).bind? (some on) <;> rfl
  | groupSum input groupBy shown sums labels ih =>
    simp only [instantiate, opened, ← ih, operators]
    cases input.instantiate fs with
    | error e => rfl
    | ok c =>
      simp only [ok_bind, Cursor.groupSum]
      cases groupBy.mapM (Scope.ofTables input.tables).resolve with
      | error e => rfl
      | ok group =>
        cases shown.mapM (Scope.ofTables input.tables).resolve with
        | error e => rfl
        | ok shown => cases sums.mapM (Scope.ofTables input.tables).bind <;> rfl
  | project input columns ih =>
    simp only [instantiate, opened, ← ih, operators]
    cases input.instantiate fs with
    | error e => rfl
    | ok c =>
      simp only [ok_bind, Cursor.project]
      cases columns.mapM (Scope.ofTables input.tables).resolve <;> rfl
  | distinct input ih =>
    simp only [instantiate, opened, ← ih, operators]
    cases input.instantiate fs <;> rfl
  | sort input keys ih =>
    simp only [instantiate, opened, ← ih, operators]
    cases input.instantiate fs <;> rfl

/-- What is opened for a plan whose capitals are small is what is opened for the plan, but for the
capitals in what its terms quote. -/
theorem opened_lowered (fs : Files) (p : Plan) :
    mapBoth Rows.Error.lowered Operator.lowered (p.lowered.opened fs) =
      mapBoth Rows.Error.lowered Operator.lowered (p.opened fs) := by
  induction p with
  | scan t => rfl
  | select input t on ih =>
    refine mapBoth_bind_congr ih fun op op' hop => ?_
    refine mapBoth_bind_congr (Scope.bind?_lowered _ (some on)) fun on on' hon => ?_
    simp only [pure, Except.pure, mapBoth, Operator.lowered, hop, hon]
  | join l r on ihl ihr =>
    refine mapBoth_bind_congr ihl fun left left' hleft => ?_
    refine mapBoth_bind_congr ihr fun right right' hright => ?_
    rw [tables_lowered, tables_lowered]
    refine mapBoth_bind_congr (Scope.bind?_lowered _ on) fun on on' hon => ?_
    simp only [pure, Except.pure, mapBoth, Operator.lowered, hleft, hright, hon]
  | filter input on ih =>
    refine mapBoth_bind_congr ih fun op op' hop => ?_
    rw [tables_lowered]
    refine mapBoth_bind_congr (Scope.bind?_lowered _ (some on)) fun on on' hon => ?_
    simp only [pure, Except.pure, mapBoth, Operator.lowered, hop, hon]
  | groupSum input groupBy shown sums labels ih =>
    simp only [lowered, opened, tables_lowered]
    refine mapBoth_bind_congr ih fun op op' hop => ?_
    refine mapBoth_bind_congr (g := id) rfl fun group group' hgroup => ?_
    refine mapBoth_bind_congr (g := id) rfl fun shown shown' hshown => ?_
    refine mapBoth_bind_congr (Scope.mapM_bind_lowered _ sums) fun sums sums' hsums => ?_
    obtain rfl : group = group' := hgroup
    obtain rfl : shown = shown' := hshown
    simp only [pure, Except.pure, mapBoth, Operator.lowered, GroupSpec.lowered, hop, hsums]
  | project input columns ih =>
    simp only [lowered, opened, tables_lowered]
    refine mapBoth_bind_congr ih fun op op' hop => ?_
    refine mapBoth_bind_congr (g := id) rfl fun indexes indexes' hindexes => ?_
    obtain rfl : indexes = indexes' := hindexes
    simp only [pure, Except.pure, mapBoth, Operator.lowered, hop]
  | distinct input ih =>
    refine mapBoth_bind_congr ih fun op op' hop => ?_
    simp only [pure, Except.pure, mapBoth, Operator.lowered, hop]
  | sort input keys ih =>
    refine mapBoth_bind_congr ih fun op op' hop => ?_
    simp only [pure, Except.pure, mapBoth, Operator.lowered, hop]

/-! ### Queries -/

/-- Cursors over operators that agree but for capitals hand out the same rows, and end alike. -/
theorem drain_respelled {fs : Files} {p p' : Plan} {c c' : Cursor} (hc : p.instantiate fs = .ok c)
    (hc' : p'.instantiate fs = .ok c') (h : c.op.lowered = c'.op.lowered) :
    (c.drain fs).1 = (c'.drain fs).1 ∧
      (c.drain fs).2.1.map Rows.Error.lowered = (c'.drain fs).2.1.map Rows.Error.lowered := by
  have hdrain := Cursor.drain_of_start (bound_of_instantiate hc).2
  have hdrain' := Cursor.drain_of_start (bound_of_instantiate hc').2
  have hyield : (c.op.yield fs).lowered = (c'.op.yield fs).lowered := by
    rw [← Operator.yield_lowered, h, Operator.yield_lowered]
  rw [← hdrain, ← hdrain'] at hyield
  exact ⟨congrArg Yield.rows hyield, congrArg Yield.error hyield⟩

/-- Plans that agree but for capitals are both set up, over operators that agree, or fail alike. -/
theorem instantiate_respelled (fs : Files) {p p' : Plan} (h : p.lowered = p'.lowered) :
    (∃ c c', p.instantiate fs = .ok c ∧ p'.instantiate fs = .ok c' ∧
        c.op.lowered = c'.op.lowered) ∨
      ∃ e e', p.instantiate fs = .error e ∧ p'.instantiate fs = .error e' ∧
        e.lowered = e'.lowered := by
  have hopened : mapBoth Rows.Error.lowered Operator.lowered (operators (p.instantiate fs)) =
      mapBoth Rows.Error.lowered Operator.lowered (operators (p'.instantiate fs)) := by
    rw [operators_instantiate, operators_instantiate, ← opened_lowered, h, opened_lowered]
  cases hc : p.instantiate fs with
  | error e =>
    cases hc' : p'.instantiate fs with
    | error e' =>
      rw [hc, hc'] at hopened
      exact .inr ⟨e, e', rfl, rfl, Except.error.inj hopened⟩
    | ok c' =>
      rw [hc, hc'] at hopened
      cases hopened
  | ok c =>
    cases hc' : p'.instantiate fs with
    | error e' =>
      rw [hc, hc'] at hopened
      cases hopened
    | ok c' =>
      rw [hc, hc'] at hopened
      exact .inl ⟨c, c', rfl, rfl, Except.ok.inj hopened⟩

/-- **The case of names does not matter.**  Of two queries that agree but for capitals, in any
place, either both are planned, with the same labels, and hand out the same rows up to the same
error; or both fail, with the same error, which may quote capitals of its own. -/
theorem prepare_respelled {fs : Files} {catalog : Catalog} {q q' : Select}
    (h : q.lowered = q'.lowered) :
    (∃ p p', prepare fs catalog q = .ok p ∧ prepare fs catalog q' = .ok p' ∧
        p.labels = p'.labels ∧ (p.cursor.drain fs).1 = (p'.cursor.drain fs).1 ∧
        (p.cursor.drain fs).2.1.map Rows.Error.lowered =
          (p'.cursor.drain fs).2.1.map Rows.Error.lowered) ∨
      ∃ e e', prepare fs catalog q = .error e ∧ prepare fs catalog q' = .error e' ∧
        e.lowered = e'.lowered := by
  have hplans : mapBoth Error.lowered lowered (ofSelect catalog q) =
      mapBoth Error.lowered lowered (ofSelect catalog q') := by
    rw [← ofSelect_lowered, h, ofSelect_lowered]
  rcases mapBoth_eq_iff.mp hplans with ⟨p, p', hp, hp', hpp⟩ | ⟨e, e', he, he', hee⟩
  · rcases instantiate_respelled fs hpp with ⟨c, c', hc, hc', hop⟩ | ⟨e, e', he, he', hee⟩
    · have hlabels : p.labels = p'.labels := by
        rw [← labels_lowered p, hpp, labels_lowered]
      exact .inl ⟨⟨p, p.labels, c⟩, ⟨p', p'.labels, c'⟩, prepare_eq_ok_iff.mpr ⟨hp, rfl, hc⟩,
        prepare_eq_ok_iff.mpr ⟨hp', rfl, hc'⟩, hlabels, drain_respelled hc hc' hop⟩
    · refine .inr ⟨.rows e, .rows e', ?_, ?_, congrArg Error.rows hee⟩
      · simp only [prepare, hp, ok_bind, he]
      · simp only [prepare, hp', ok_bind, he']
  · refine .inr ⟨e, e', ?_, ?_, hee⟩
    · rw [prepare, he]
      rfl
    · rw [prepare, he']
      rfl

/-- The marks that pupils got, each once and in order, with other capitals. -/
def respelledQuery : Select where
  distinct := true
  items := [.expr (.column { column := "MARK" })]
  sources := [.table "pUPILS", .table "Marks"]
  condition := some (.binary (.column { column := "Id" }) .equal
    (.column { table := some "MARKS", column := "Pupil" }))
  orderBy := [{ expr := .column { column := "Mark" } }]

theorem lowered_orderedQuery : orderedQuery.lowered = respelledQuery.lowered := by
  have hpupils : Name.lowered "Pupils" = Name.lowered "pUPILS" := by decide
  have hmarks : Name.lowered "marks" = Name.lowered "Marks" := by decide
  have hMarks : Name.lowered "MARKS" = Name.lowered "Marks" := by decide
  have hid : Name.lowered "id" = Name.lowered "Id" := by decide
  have hpupil : Name.lowered "pupil" = Name.lowered "Pupil" := by decide
  have hmark : Name.lowered "MARK" = Name.lowered "mark" := by decide
  have hMark : Name.lowered "Mark" = Name.lowered "mark" := by decide
  simp only [Select.lowered, orderedQuery, respelledQuery, Sample.matching, List.map_cons,
    List.map_nil, SelectItem.lowered, Source.lowered, OrderItem.lowered, Expr.lowered,
    ColumnRef.lowered, Option.map_some, Option.map_none, hpupils, hmarks, hMarks, hid, hpupil,
    hmark, hMark]

/-- The query is planned as the one with other capitals, and hands out its rows. -/
theorem prepare_respelled_sample : orderedQuery.lowered = respelledQuery.lowered ∧
    ∃ p', prepare Sample.files sampleCatalog respelledQuery = .ok p' ∧
      p'.labels = orderedPrepared.labels ∧
      (p'.cursor.drain Sample.files).1 = (orderedPrepared.cursor.drain Sample.files).1 := by
  refine ⟨lowered_orderedQuery, ?_⟩
  rcases @prepare_respelled Sample.files sampleCatalog _ _ lowered_orderedQuery with
    ⟨p, p', hp, hp', hlabels, hrows, -⟩ | ⟨e, e', he, -⟩
  · obtain rfl : orderedPrepared = p := Except.ok.inj (prepare_orderedQuery.symm.trans hp)
    exact ⟨p', hp', hlabels.symm, hrows.symm⟩
  · exact absurd (prepare_orderedQuery.symm.trans he) nofun

end Plan

end FlatQuery
