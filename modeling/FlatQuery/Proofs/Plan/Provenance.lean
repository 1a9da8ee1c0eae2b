import FlatQuery.Proofs.Plan.ItemOrder
import FlatQuery.Proofs.Plan.SourceOrder
import FlatQuery.Proofs.Rows.Parts

/-!
# Where values come from

Nothing checks how many fields the rows of a data file have.  A joined row is one row of each table
side by side, a column is looked up at the offset that the tables before it should fill, and without
aggregates what a query shows are fields of joined rows (`Shows`).  So a value stands in the column
that it belongs to as long as the rows before it in the same joined row are as wide as their tables
(`drain_ragged`); a row that is too long or too short shifts all that stands behind it
(`not_drain_ragged`).
-/

namespace FlatQuery.Plan

open Rows Scope Outcome

/-! ### What output fields name -/

/-- That a reference means column `j` of the table behind `front`: among the tables this is the
first that can be meant. -/
structure Means (tables : List Table) (c : ColumnRef) (front : List Table) (t : Table) (j : Nat) :
    Prop where
  stands : ∃ back, tables = front ++ t :: back
  first : ∀ u ∈ front, ¬ heldBy c (.ofTable u) = true
  held : heldBy c (.ofTable t) = true
  column : (ScopeTable.ofTable t).columns.idxOf? (Name.canonical c.column) = some j

/-- That field `k` of the answer to a SELECT list names column `j` of the table behind `front`. -/
inductive Names (tables : List Table) :
    List SelectItem → Nat → List Table → Table → Nat → Prop
  /-- The fields of a star are all columns of all tables. -/
  | star {front back : List Table} {t : Table} {j : Nat} (htables : tables = front ++ t :: back)
      (hj : j < t.columns.length) :
      Names tables [.star] (widthOf (front.map .ofTable) + j) front t j
  /-- Those of the star of the only table are the columns of that table. -/
  | onlyStar {name : String} {t : Table} {j : Nat} (htables : tables = [t])
      (hj : j < t.columns.length) : Names tables [.tableStar name] j [] t j
  /-- Those of the star of one of several tables are the columns of that table, each under its
  name. -/
  | tableStar {name : String} {front : List Table} {t : Table} {column : Column} {j : Nat}
      (hmany : tables.length ≠ 1) (hname : t.name = Name.canonical name)
      (hcolumn : t.columns[j]? = some column)
      (h : Means tables { table := some t.name, column := column.name } front t j) :
      Names tables [.tableStar name] j front t j
  /-- A column that is listed is named as it is meant. -/
  | column {items : List SelectItem} {k : Nat} {c : ColumnRef} {front : List Table} {t : Table}
      {j : Nat} (hitem : items[k]? = some (.expr (.column c))) (h : Means tables c front t j) :
      Names tables items k front t j

variable {fs : Files} {catalog : Catalog} {q : Select} {p joined chosen : Plan}
  {tables front : List Table} {t : Table} {items : List SelectItem} {r o : Row} {j k : Nat}

/-- The value of a reference is the field behind the tables that stand before the one it means. -/
theorem Means.getElem? {c : ColumnRef} {v : String} (h : Means tables c front t j)
    (hv : (Scope.ofTables tables).value r c = some v) :
    r.fields[widthOf (front.map .ofTable) + j]? = some v := by
  obtain ⟨back, rfl⟩ := h.stands
  obtain ⟨i, hi, hfield⟩ := Option.bind_eq_some_iff.mp hv
  rw [toOption_eq_some_iff, Scope.ofTables, List.map_append, List.map_cons] at hi
  have hindex := eq_of_resolve_first hi (by simpa using h.first) h.held h.column
  rwa [← hindex]

/-! ### What is shown of a joined row -/

/-- That a row is what a SELECT list without aggregates shows of a joined row. -/
inductive Shows (tables : List Table) : List SelectItem → Row → Row → Prop
  | star (r : Row) : Shows tables [.star] r r
  | onlyStar {name : String} {t : Table} (htables : tables = [t]) (r : Row) :
      Shows tables [.tableStar name] r r
  | tableStar {name : String} {t : Table} {r o : Row} (hmany : tables.length ≠ 1)
      (ht : tables.find? (·.name == Name.canonical name) = some t)
      (h : o.fields.map some = valuesIn (.ofTables tables) (columnsOf t) r) :
      Shows tables [.tableStar name] r o
  | columns {columns : List ColumnRef} {r o : Row}
      (h : o.fields.map some = valuesIn (.ofTables tables) columns r) :
      Shows tables (columns.map fun c => .expr (.column c)) r o

/-- A field that shows a reference is the field of the joined row that the reference means. -/
theorem getElem?_of_valuesIn {columns : List ColumnRef} {c : ColumnRef}
    (h : o.fields.map some = valuesIn (.ofTables tables) columns r) (hc : columns[k]? = some c)
    (hmeans : Means tables c front t j) :
    o.fields[k]? = r.fields[widthOf (front.map .ofTable) + j]? := by
  have hk : o.fields[k]?.map some = some ((Scope.ofTables tables).value r c) := by
    rw [← List.getElem?_map, h, valuesIn, List.getElem?_map, hc, Option.map_some]
  obtain ⟨v, hfield, hv⟩ := Option.map_eq_some_iff.mp hk
  rw [hfield, hmeans.getElem? hv.symm]

theorem Shows.getElem? (h : Shows tables items r o) (hnames : (tables.map (·.name)).Nodup)
    (hk : Names tables items k front t j) :
    o.fields[k]? = r.fields[widthOf (front.map .ofTable) + j]? := by
  -- by what the row shows; the field is named by an item of the same kind, or by none
  cases h with
  | star =>
    cases hk with
    | star htables hj => rfl
    | column hitem hmeans =>
      cases k <;> cases hitem
  | onlyStar htables =>
    cases hk with
    | onlyStar htables' hj => exact congrArg (r.fields[·]?) (Nat.zero_add _).symm
    | tableStar hmany => exact absurd (congrArg List.length htables) hmany
    | column hitem hmeans => cases k <;> cases hitem
  | tableStar hmany ht h =>
    cases hk with
    | onlyStar htables hj => exact absurd (congrArg List.length htables) hmany
    | tableStar _ hname hcolumn hmeans =>
      obtain ⟨back, htables⟩ := hmeans.stands
      have hmem : t ∈ tables := htables ▸ List.mem_append_right _ (List.mem_cons_self ..)
      obtain rfl := Option.some.inj (ht.symm.trans
        ((find_name_eq_some_iff hnames).mpr ⟨hmem, hname⟩))
      refine getElem?_of_valuesIn h ?_ hmeans
      rw [columnsOf, List.getElem?_map, hcolumn, Option.map_some]
    | column hitem hmeans => cases k <;> cases hitem
  | @columns columns _ _ h =>
    generalize hitems : (columns.map fun c => SelectItem.expr (.column c)) = items at hk
    cases hk with
    | column hitem hmeans =>
      rw [← hitems, List.getElem?_map] at hitem
      obtain ⟨c, hc, hexpr⟩ := Option.map_eq_some_iff.mp hitem
      cases hexpr
      exact getElem?_of_valuesIn h hc hmeans
    | _ => cases columns <;> cases hitems

/-! ### Through the stages -/

/-- That a plan hands out a row, be it that an error follows. -/
def Hands (fs : Files) (p : Plan) (r : Row) : Prop :=
  ∃ op, p.bound = .ok op ∧ r ∈ (op.yield fs).rows

theorem hands_of_drain {p : Prepared} (hp : prepare fs catalog q = .ok p)
    (ho : o ∈ (p.cursor.drain fs).1) : p.plan.Hands fs o := by
  obtain ⟨-, -, hcursor⟩ := prepare_eq_ok_iff.mp hp
  obtain ⟨hbound, hstart⟩ := bound_of_instantiate hcursor
  have hrows : (p.cursor.drain fs).1 = (p.cursor.op.yield fs).rows :=
    congrArg Yield.rows (Cursor.drain_of_start hstart)
  exact ⟨_, hbound, hrows ▸ ho⟩

/-- Joined rows consist of one row of each table, whatever the data files hold. -/
theorem Hands.mem_product (hp : p.IsBase) (h : p.Hands fs r) :
    r ∈ product (p.tables.map (dataRows fs)) := by
  obtain ⟨op, hop, hr⟩ := h
  -- conditions only leave rows out, so a row is traced back through each node
  induction p generalizing op r with
  | scan t =>
    cases hop
    rw [tables, List.map_singleton, product_singleton]
    exact mem_dataRows hr
  | select input t on ih =>
    obtain rfl : input = .scan t := hp
    obtain ⟨i, hi, hop⟩ := bind_eq_ok_iff.mp hop
    obtain ⟨on', -, hop⟩ := bind_eq_ok_iff.mp hop
    cases hop
    obtain ⟨a, ha, hr⟩ := Yield.exists_of_mem_bind hr
    obtain rfl := eq_of_mem_tested hr
    exact ih trivial i hi ha
  | join left right on ihl ihr =>
    obtain ⟨i, hi, hop⟩ := bind_eq_ok_iff.mp hop
    obtain ⟨j, hj, hop⟩ := bind_eq_ok_iff.mp hop
    obtain ⟨on', -, hop⟩ := bind_eq_ok_iff.mp hop
    cases hop
    obtain ⟨a, ha, hr⟩ := Yield.exists_of_mem_bind hr
    obtain ⟨b, hb, hr⟩ := Yield.exists_of_mem_bind hr
    obtain rfl := eq_of_mem_tested hr
    rw [tables, List.map_append]
    exact append_mem_product (ihl hp.1 i hi ha) (ihr hp.2 j hj hb)
  | filter input on ih =>
    obtain ⟨i, hi, hop⟩ := bind_eq_ok_iff.mp hop
    obtain ⟨on', -, hop⟩ := bind_eq_ok_iff.mp hop
    cases hop
    obtain ⟨a, ha, hr⟩ := Yield.exists_of_mem_bind hr
    obtain rfl := eq_of_mem_tested hr
    exact ih hp i hi ha
  | _ => exact hp.elim

theorem Hands.distinct (h : (distinct p).Hands fs o) : p.Hands fs o := by
  obtain ⟨op, hop, ho⟩ := h
  obtain ⟨i, hi, hop⟩ := bind_eq_ok_iff.mp hop
  cases hop
  exact ⟨i, hi, mem_of_mem_deduplicating ho⟩

theorem Hands.sort {keys : List OrderKey} (h : (sort p keys).Hands fs o) : p.Hands fs o := by
  obtain ⟨op, hop, ho⟩ := h
  obtain ⟨i, hi, hop⟩ := bind_eq_ok_iff.mp hop
  cases hop
  exact ⟨i, hi, mem_of_mem_sorting ho⟩

theorem Hands.project {columns : List ColumnRef} (h : (project p columns).Hands fs o) :
    ∃ r, p.Hands fs r ∧ o.fields.map some = valuesIn (.ofTables p.tables) columns r := by
  obtain ⟨op, hop, ho⟩ := h
  obtain ⟨i, hi, hop⟩ := bind_eq_ok_iff.mp hop
  obtain ⟨indexes, hindexes, hop⟩ := bind_eq_ok_iff.mp hop
  cases hop
  obtain ⟨r, hr, ho⟩ := Yield.exists_of_mem_bind ho
  have hfields := fieldsAt_of_pick (pick_of_mem_picked ho)
  exact ⟨r, ⟨i, hi, hr⟩, hfields.trans (valuesIn_of_resolve hindexes r).symm⟩

theorem Hands.groupSum {keys columns : List ColumnRef} {labels : List String} (hkeys : keys ≠ [])
    (h : (groupSum p keys columns [] labels).Hands fs o) :
    ∃ r, p.Hands fs r ∧ o.fields.map some = valuesIn (.ofTables p.tables) columns r := by
  obtain ⟨op, hop, ho⟩ := h
  obtain ⟨i, hi, hop⟩ := bind_eq_ok_iff.mp hop
  obtain ⟨group, hgroup, hop⟩ := bind_eq_ok_iff.mp hop
  obtain ⟨shown, hshown, hop⟩ := bind_eq_ok_iff.mp hop
  cases hop
  have hsome : group ≠ [] := by
    rintro rfl
    exact hkeys (List.length_eq_zero_iff.mp (mapM_eq_ok_iff.mp hgroup).length_eq)
  obtain ⟨r, hr, hfields⟩ := exists_of_mem_grouping hsome rfl ho
  exact ⟨r, ⟨i, hi, hr⟩, hfields.trans (valuesIn_of_resolve hshown r).symm⟩

theorem Hands.deduplicated {distinct : Bool} (h : (deduplicated distinct p).Hands fs o) :
    p.Hands fs o := by
  cases distinct with
  | true => exact h.distinct
  | false => exact h

theorem Hands.ordered {items : List OrderItem} {p' : Plan} (hp : ordered items p = .ok p')
    (h : p'.Hands fs o) : p.Hands fs o := by
  rcases ordered_eq_ok_iff.mp hp with ⟨-, rfl⟩ | ⟨-, keys, -, rfl⟩
  · exact h
  · exact h.sort

theorem Hands.selected {groupBy : List Expr} {list : SelectList}
    (hreads : SelectList.Reads items groupBy list)
    (hplain : ∀ item ∈ items, SelectList.isAggregateItem item = false)
    (hchosen : selected list joined.tables joined = .ok chosen) (h : chosen.Hands fs o) :
    ∃ r, joined.Hands fs r ∧ Shows joined.tables items r o := by
  cases hreads with
  | star =>
    cases hchosen
    exact ⟨o, h, .star o⟩
  | tableStar name =>
    simp only [Plan.selected] at hchosen
    split at hchosen
    · cases hchosen
    · rename_i t ht
      cases hchosen
      by_cases hone : joined.tables.length = 1
      · rw [if_pos hone] at h
        obtain ⟨u, hu⟩ := List.length_eq_one_iff.mp hone
        exact ⟨o, h, .onlyStar hu o⟩
      · rw [if_neg hone] at h
        obtain ⟨r, hr, hfields⟩ := h.project
        exact ⟨r, hr, .tableStar hone ht hfields⟩
  | @listed columns keys calls aggregates hcalls hsub =>
    obtain rfl := (SelectList.Reads.listed hcalls hsub).aggregates_eq_nil hplain
    cases hcalls
    rw [List.map_nil, List.append_nil]
    cases keys with
    | nil =>
      cases hchosen
      obtain ⟨r, hr, hfields⟩ := h.project
      rw [valuesIn_canonical] at hfields
      exact ⟨r, hr, .columns hfields⟩
    | cons key keys =>
      cases hchosen
      obtain ⟨r, hr, hfields⟩ := h.groupSum (List.cons_ne_nil _ _)
      rw [valuesIn_canonical] at hfields
      exact ⟨r, hr, .columns hfields⟩

theorem Shows.width (h : Shows tables items r o) (hexpr : ∀ item ∈ items, ∃ e, item = .expr e) :
    o.width = items.length := by
  cases h with
  | star =>
    obtain ⟨e, he⟩ := hexpr _ (List.mem_singleton_self _)
    cases he
  | onlyStar htables =>
    obtain ⟨e, he⟩ := hexpr _ (List.mem_singleton_self _)
    cases he
  | tableStar hmany ht h =>
    obtain ⟨e, he⟩ := hexpr _ (List.mem_singleton_self _)
    cases he
  | columns h =>
    have hlength := congrArg List.length h
    rw [List.length_map, valuesIn, List.length_map] at hlength
    rw [Row.width, hlength, List.length_map]

/-- Each column that is selected has a value in the joined rows of a run without failure. -/
theorem Chosen.isSome_value {groupBy : List Expr} {rows out : List Row} {c : ColumnRef}
    (h : Chosen tables items groupBy rows out) (hr : r ∈ rows)
    (hc : .expr (.column c) ∈ items) : ((Scope.ofTables tables).value r c).isSome := by
  have hsome : ∀ {columns : List ColumnRef} {fields : List String}, c ∈ columns →
      fields.map some = valuesIn (.ofTables tables) columns r →
      ((Scope.ofTables tables).value r c).isSome := by
    intro columns fields hmem hfields
    have hvalue : (Scope.ofTables tables).value r c ∈ fields.map some :=
      hfields ▸ List.mem_map_of_mem hmem
    obtain ⟨v, -, hv⟩ := List.mem_map.mp hvalue
    rw [← hv]
    rfl
  have hmem : ∀ {columns : List ColumnRef},
      SelectItem.expr (.column c) ∈ columns.map (fun c => .expr (.column c)) → c ∈ columns := by
    intro columns hin
    obtain ⟨d, hd, heq⟩ := List.mem_map.mp hin
    cases heq
    exact hd
  cases h with
  | star => cases List.mem_singleton.mp hc
  | onlyStar ht hname => cases List.mem_singleton.mp hc
  | tableStar hmany ht hrows => cases List.mem_singleton.mp hc
  | columns hrows =>
    obtain ⟨o, -, ho⟩ := exists_mem_of_forall₂ hrows.flip hr
    exact hsome (hmem hc) ho
  | @groups columns keys calls sums _ _ _ hcalls hgroups =>
    obtain ⟨o, -, members, hmember, shown, -, -, hshown, -⟩ := exists_groupRow_of_mem hgroups hr
    rcases List.mem_append.mp hc with hc | hc
    · exact hsome (hmem hc) (hshown r hmember)
    · obtain ⟨call, hcall, heq⟩ := List.mem_map.mp hc
      obtain ⟨e, -, name, rfl, -⟩ := exists_mem_of_forall₂ hcalls.flip hcall
      cases heq

/-! ### Every row -/

/-- That a row is composed of fields of others, one of the data file of each table: a field that
names a column shows what stands at the offset of that column in the rows side by side, and the
column itself if the rows before are as wide as their tables, and the row of the table has the field
or is the last one. -/
structure Composed (fs : Files) (tables : List Table) (items : List SelectItem) (o : Row)
    (parts : List Row) : Prop where
  rows : List.Forall₂ (fun t part => part ∈ dataRows fs t) tables parts
  width : (∀ item ∈ items, ∃ e, item = .expr e) → o.width = items.length
  field : ∀ {k : Nat} {front : List Table} {t : Table} {j : Nat}, Names tables items k front t j →
    ∃ before part behind, parts = before ++ part :: behind ∧ before.length = front.length ∧
      part ∈ dataRows fs t ∧
      o.fields[k]? = (joinedFields parts)[widthOf (front.map .ofTable) + j]? ∧
      (List.Forall₂ (fun t part => part.width = t.columns.length) front before →
        (j < part.width ∨ behind = []) → o.fields[k]? = part.fields[j]?)

theorem Names.exists_append (h : Names tables items k front t j) :
    ∃ back, tables = front ++ t :: back := by
  cases h with
  | star htables hj => exact ⟨_, htables⟩
  | onlyStar htables hj => exact ⟨[], htables⟩
  | tableStar hmany hname hcolumn hmeans => exact hmeans.stands
  | column hitem hmeans => exact hmeans.stands

theorem Shows.exists_composed (h : Shows tables items r o) (hnames : (tables.map (·.name)).Nodup)
    (hr : r ∈ product (tables.map (dataRows fs))) : ∃ parts, Composed fs tables items o parts := by
  obtain ⟨parts, hparts, hfields⟩ := exists_parts_of_mem_product hr
  rw [List.forall₂_map_left_iff] at hparts
  refine ⟨parts, hparts, h.width, fun {k front t j} hk => ?_⟩
  obtain ⟨back, rfl⟩ := hk.exists_append
  obtain ⟨before, rest, rfl, hbefore, hrest⟩ := exists_append_of_forall₂ hparts
  obtain ⟨part, behind, hpart, -, rfl⟩ := List.forall₂_cons_left_iff.mp hrest
  have hshown : o.fields[k]? =
      (joinedFields (before ++ part :: behind))[widthOf (front.map .ofTable) + j]? :=
    hfields ▸ h.getElem? hnames hk
  refine ⟨before, part, behind, rfl, hbefore.length_eq.symm, hpart, hshown, ?_⟩
  intro hwidth hlast
  rw [hshown, getElem?_joined hwidth hlast]

/-- **Where values come from.**  Whatever the data files hold, each row that a query without
aggregates shows is composed of one row of each data file.  So the value in an output column is the
field of that column in a row of its table, as long as the rows it was joined with on the left are
as wide as their tables, and its own row has the field or stands last.  A row that lacks a column
that is listed is not shown: the run fails, and one that does not fail has found each column in
every joined row. -/
theorem drain_ragged {p : Prepared} (hp : prepare fs catalog q = .ok p)
    (hplain : ∀ item ∈ q.items, SelectList.isAggregateItem item = false) :
    ∃ tables joined, sourceTables catalog [] q.sources = .ok tables ∧
      base tables q.condition = .ok joined ∧
      (∀ o ∈ (p.cursor.drain fs).1, ∃ parts, Composed fs tables q.items o parts) ∧
      ((p.cursor.drain fs).2.1 = none → ∃ rows, HandsOut fs joined rows ∧ ∀ r ∈ rows,
        ∀ c, .expr (.column c) ∈ q.items → ((Scope.ofTables tables).value r c).isSome) := by
  obtain ⟨hplan, -, hcursor⟩ := prepare_eq_ok_iff.mp hp
  obtain ⟨list, tables, joined, chosen, hlist, -, htables, hjoined, hchosen, hordered⟩ :=
    ofSelect_eq_ok_iff.mp hplan
  have hreads := SelectList.reads_of_analyse hlist
  obtain ⟨-, hnames, -⟩ := sourceTables_eq_ok_iff.mp htables
  obtain rfl := tables_of_base hjoined
  refine ⟨joined.tables, joined, htables, hjoined, fun o ho => ?_, fun hend => ?_⟩
  · have hhands := ((hands_of_drain hp ho).ordered hordered).deduplicated
    obtain ⟨r, hr, hshows⟩ := hhands.selected hreads hplain hchosen
    exact hshows.exists_composed hnames (hr.mem_product (isBase_of_base hjoined))
  · have hout : HandsOut fs p.plan (p.cursor.drain fs).1 := ⟨p.cursor, hcursor, rfl, hend⟩
    obtain ⟨-, once, honce, -⟩ := hout.ordered hordered
    obtain ⟨shown, hshown, -⟩ := honce.deduplicated
    obtain ⟨rows, hrows, hselected⟩ := hshown.selected hreads hchosen rfl
    exact ⟨rows, hrows, fun r hr c hc => hselected.isSome_value hr hc⟩

def besideQuery : Select where
  items := [.expr (.column { column := "mark" })]
  sources := [.table "pupils", .table "marks"]

def besidePrepared : Prepared where
  plan := .project (.join (.scan Sample.pupils) (.scan Sample.marks) none) [{ column := "mark" }]
  labels := ["mark"]
  cursor :=
    { op := .project (.join (.scan Sample.pupils) (.scan Sample.marks) none) [3] ["mark"]
      state := { left := { node := .file 0 }, right := { node := .file 1 } } }

/-- A pupil with a field too many, and a mark. -/
def raggedFiles : Files := Sample.filesWith "1,14,7\n" "1,3\n"

theorem prepare_besideQuery :
    prepare raggedFiles sampleCatalog besideQuery = .ok besidePrepared := rfl

theorem drain_besideQuery : (besidePrepared.cursor.drain raggedFiles).1 = [⟨["1"]⟩] ∧
    (besidePrepared.cursor.drain raggedFiles).2.1 = none := by
  have hdrain := @Cursor.drain_of_start raggedFiles besidePrepared.cursor rfl
  exact ⟨(congrArg Yield.rows hdrain).trans (by decide),
    (congrArg Yield.error hdrain).trans (by decide)⟩

/-- The row of the pupil and the mark is composed of the two rows, although the first is too
wide. -/
theorem drain_ragged_sample :
    (prepare raggedFiles sampleCatalog besideQuery = .ok besidePrepared ∧
      ∀ item ∈ besideQuery.items, SelectList.isAggregateItem item = false) ∧
    ∃ tables joined, sourceTables sampleCatalog [] besideQuery.sources = .ok tables ∧
      base tables besideQuery.condition = .ok joined ∧
      (∀ o ∈ (besidePrepared.cursor.drain raggedFiles).1,
        ∃ parts, Composed raggedFiles tables besideQuery.items o parts) ∧
      ((besidePrepared.cursor.drain raggedFiles).2.1 = none →
        ∃ rows, HandsOut raggedFiles joined rows ∧ ∀ r ∈ rows, ∀ c,
          .expr (.column c) ∈ besideQuery.items → ((Scope.ofTables tables).value r c).isSome) := by
  have hplain : ∀ item ∈ besideQuery.items, SelectList.isAggregateItem item = false :=
    List.forall_mem_singleton.mpr rfl
  exact ⟨⟨prepare_besideQuery, hplain⟩, drain_ragged prepare_besideQuery hplain⟩

/-- A row with a field too many puts a value of another column under the mark, and nothing
fails. -/
theorem not_drain_ragged :
    ¬ ∀ (fs : Files) (catalog : Catalog) (q : Select) (p : Prepared) (tables : List Table),
      prepare fs catalog q = .ok p →
      (∀ item ∈ q.items, SelectList.isAggregateItem item = false) →
      sourceTables catalog [] q.sources = .ok tables →
      ∀ o ∈ (p.cursor.drain fs).1, ∀ k front t j, Names tables q.items k front t j →
        ∃ r ∈ dataRows fs t, o.fields[k]? = r.fields[j]? := by
  intro hall
  have hplain : ∀ item ∈ besideQuery.items, SelectList.isAggregateItem item = false :=
    List.forall_mem_singleton.mpr rfl
  have hmeans : Means [Sample.pupils, Sample.marks] { column := "mark" } [Sample.pupils]
      Sample.marks 1 :=
    ⟨⟨[], rfl⟩, by decide +kernel, by decide +kernel, by decide +kernel⟩
  have hshown : (⟨["1"]⟩ : Row) ∈ (besidePrepared.cursor.drain raggedFiles).1 := by
    rw [drain_besideQuery.1]
    exact List.mem_singleton_self _
  obtain ⟨r, hr, hfield⟩ := hall _ _ _ _ _ prepare_besideQuery hplain rfl _ hshown 0 _ _ _
    (.column rfl hmeans)
  have hrows : dataRows raggedFiles Sample.marks = [⟨["1", "3"]⟩] := by decide
  rw [hrows, List.mem_singleton] at hr
  subst hr
  exact absurd hfield (by decide)

end FlatQuery.Plan
