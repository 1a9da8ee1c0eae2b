import FlatQuery.Proofs.Catalog.Load
import FlatQuery.Proofs.Plan.Layout
import FlatQuery.Proofs.Plan.Provenance

/-!
# The star of a table

The star of the only table keeps the rows as they are.  That of one of several tables goes by the
names of the columns of the table, each of which is looked up again among the joined tables
(`index_of_resolve_own`).  If the names differ, this selects the part of the joined row that the
table contributes (`underNames_of_nodup`), so both stars cut the rows of `SELECT *` down to that
part (`tableStar_cut`).  If a schema declares a column twice, the first of the two is shown twice
and the other is lost (`not_tableStar_cut`).
-/

namespace FlatQuery.Plan

open Rows Scope Outcome

/-- What a table contributes to a joined row, behind the tables before it. -/
def cutTo (front : List Table) (t : Table) (r : Row) : Row :=
  ⟨(r.fields.drop (widthOf (front.map .ofTable))).take t.columns.length⟩

/-- The fields of a joined row under the names of the columns of a table; under a name that several
of its columns have stands the first of them. -/
def underNames (front : List Table) (t : Table) (r : Row) : Row :=
  let columns := (ScopeTable.ofTable t).columns
  ⟨columns.filterMap fun c => r.fields[widthOf (front.map .ofTable) + columns.idxOf c]?⟩

variable {fs : Files} {catalog : Catalog} {front back tables : List Table} {t : Table} {r : Row}

/-! ### Picking fields -/

theorem pick_of_lt {indexes : List Nat} (h : ∀ i ∈ indexes, i < r.width) :
    r.pick indexes = .ok ⟨indexes.filterMap (r.fields[·]?)⟩ := by
  obtain ⟨out, hout⟩ := exists_pick_iff.mpr h
  have hfields := congrArg (List.filterMap id) (fieldsAt_of_pick hout)
  rw [fieldsAt, List.filterMap_map, List.filterMap_map] at hfields
  rw [hout]
  exact congrArg (fun fields => Except.ok (Row.mk fields))
    ((List.filterMap_some).symm.trans hfields)

theorem bind_picked {y : Yield} {indexes : List Nat}
    (h : ∀ r ∈ y.rows, ∀ i ∈ indexes, i < r.width) :
    y.bind (picked indexes) =
      ⟨y.rows.map fun r => ⟨indexes.filterMap (r.fields[·]?)⟩, y.error⟩ := by
  obtain ⟨rows, e⟩ := y
  induction rows with
  | nil => rfl
  | cons r rows ih =>
    obtain ⟨hr, hrows⟩ := List.forall_mem_cons.mp h
    have hcons : (Yield.mk (r :: rows) e).bind (picked indexes) =
        (picked indexes r).append ((Yield.mk rows e).bind (picked indexes)) := rfl
    rw [hcons, ih hrows, picked, pick_of_lt hr]
    rfl

theorem filterMap_range {α : Type} (xs : List α) (w n : Nat) :
    (List.range n).filterMap (fun k => xs[w + k]?) = (xs.drop w).take n := by
  induction n with
  | zero => rfl
  | succ n ih =>
    rw [List.range_succ, List.filterMap_append, ih, List.take_add_one, List.getElem?_drop]
    cases hfield : xs[w + n]? with
    | none => simp only [List.filterMap_cons, hfield, List.filterMap_nil, Option.toList_none]
    | some x => simp only [List.filterMap_cons, hfield, List.filterMap_nil, Option.toList_some]

/-- If the names of the columns differ, their fields are those that the table contributes. -/
theorem underNames_of_nodup (h : (ScopeTable.ofTable t).columns.Nodup) (front : List Table)
    (r : Row) : underNames front t r = cutTo front t r := by
  have hindexes : (ScopeTable.ofTable t).columns.map (ScopeTable.ofTable t).columns.idxOf =
      List.range t.columns.length := by
    rw [← width_ofTable]
    refine List.ext_getElem (by simp [ScopeTable.width]) fun k hk _ => ?_
    rw [List.getElem_map, List.getElem_range, h.idxOf_getElem]
  rw [underNames, cutTo, ← filterMap_range, ← hindexes, List.filterMap_map]
  rfl

theorem cutTo_only (h : r.width = t.columns.length) : cutTo [] t r = r := by
  rw [cutTo, ← h]
  exact congrArg Row.mk (List.take_length ..)

/-! ### The columns of a table among joined tables -/

/-- The reference to a column of a table by both names. -/
def ownColumn (t : Table) (c : Column) : ColumnRef :=
  { table := some t.name, column := c.name }

theorem heldBy_own (hname : Name.canonical t.name = t.name) {c : Column} (hc : c ∈ t.columns) :
    heldBy (ownColumn t c) (.ofTable t) = true := by
  have hcolumn : Name.canonical c.name ∈ (ScopeTable.ofTable t).columns :=
    List.mem_map_of_mem (List.mem_map_of_mem hc)
  have hqualifier : ((ownColumn t c).qualifier?.map Name.canonical).all
      (· = (ScopeTable.ofTable t).name) = true := by
    have hown : (ownColumn t c).table = some (ScopeTable.ofTable t).name := by
      show some t.name = some (Name.canonical t.name)
      rw [hname]
    have htable : Name.canonical (ScopeTable.ofTable t).name = (ScopeTable.ofTable t).name :=
      Name.canonical_canonical t.name
    rw [qualifier_of_located htable hown]
    split
    · rw [Option.all_none]
    · simp only [Option.all_some, decide_true]
  rw [heldBy, hqualifier, Bool.true_and]
  exact List.isSome_idxOf?.mpr hcolumn

/-- Among tables of different names a column of a table, by both names, is the first column of that
name of that table. -/
theorem index_of_resolve_own
    (hnames : ((front ++ t :: back).map fun t => Name.canonical t.name).Nodup)
    (hname : Name.canonical t.name = t.name) {c : Column} (hc : c ∈ t.columns) {i : Nat}
    (h : (Scope.ofTables (front ++ t :: back)).resolve (ownColumn t c) = .ok i) :
    i = widthOf (front.map .ofTable) +
      (ScopeTable.ofTable t).columns.idxOf (Name.canonical c.name) := by
  have hheld := heldBy_own hname hc
  rw [← map_name_ofTable] at hnames
  obtain ⟨front', t', back', j, hts, hfront, -, hback, hj, rfl⟩ :=
    (resolve_joined_eq_ok_iff hnames).mp h
  have hsame : front' = front.map .ofTable ∧ t' = .ofTable t := by
    rw [List.map_append, List.map_cons] at hts
    rcases List.append_eq_append_iff.mp hts with ⟨more, hmore, hrest⟩ | ⟨more, hmore, hrest⟩
    · cases more with
      | nil =>
        rw [List.append_nil] at hmore
        exact ⟨hmore, (List.cons.inj hrest).1.symm⟩
      | cons u more =>
        obtain rfl := (List.cons.inj hrest).1
        exact absurd hheld (hfront _ (hmore ▸ List.mem_append_right _ (List.mem_cons_self ..)))
    · cases more with
      | nil =>
        rw [List.append_nil] at hmore
        exact ⟨hmore.symm, (List.cons.inj hrest).1⟩
      | cons u more =>
        obtain ⟨-, rfl⟩ := List.cons.inj hrest
        exact absurd hheld (hback _ (List.mem_append_right _ (List.mem_cons_self ..)))
  obtain ⟨rfl, rfl⟩ := hsame
  have hcolumn : (ScopeTable.ofTable t).columns.idxOf? (Name.canonical c.name) = some j := hj
  rw [List.idxOf_eq_getD_idxOf?, hcolumn, Option.getD_some]

theorem indexes_of_columnsOf
    (hnames : ((front ++ t :: back).map fun t => Name.canonical t.name).Nodup)
    (hname : Name.canonical t.name = t.name) {indexes : List Nat}
    (h : (columnsOf t).mapM (Scope.ofTables (front ++ t :: back)).resolve = .ok indexes) :
    indexes = (ScopeTable.ofTable t).columns.map fun c =>
      widthOf (front.map .ofTable) + (ScopeTable.ofTable t).columns.idxOf c := by
  have hresolve := mapM_eq_ok_iff.mp h
  rw [columnsOf, List.forall₂_map_left_iff] at hresolve
  have hindexes : List.Forall₂ (fun c i => widthOf (front.map .ofTable) +
      (ScopeTable.ofTable t).columns.idxOf (Name.canonical c.name) = i) t.columns indexes := by
    refine List.forall₂_iff_zip.mpr ⟨hresolve.length_eq, fun {c i} hmem => ?_⟩
    have hc : c ∈ t.columns := (List.of_mem_zip hmem).1
    exact (index_of_resolve_own hnames hname hc ((List.forall₂_iff_zip.mp hresolve).2 hmem)).symm
  rw [← List.forall₂_map_left_iff (R := (· = ·)), List.forall₂_eq_eq_eq] at hindexes
  rw [← hindexes, ScopeTable.ofTable, ScopeTable.named, Table.columnNames, List.map_map,
    List.map_map]
  rfl

/-! ### Both stars -/

theorem consistent_of_load {c₀ : Catalog} {fs₀ fs₁ : Files} {schema dir : Path} {n : Nat}
    (hc : c₀.Consistent) (h : Schema.load c₀ fs₀ schema dir = (.ok n, catalog, fs₁)) :
    catalog.Consistent := by
  rw [Schema.load] at h
  split at h
  · cases h
  · split at h
    · cases h
    · rename_i hparse
      have hcolumns := Schema.columns_ne_nil_of_parseLines hparse
      rw [Schema.register_ok hcolumns h]
      exact (Schema.consistent_declareAll hc hcolumns).1

/-- The tables of a FROM list over a consistent catalog have canonical names, all different. -/
theorem canonical_of_sourceTables (hc : catalog.Consistent) {sources : List Source}
    (h : sourceTables catalog [] sources = .ok tables) :
    (∀ t ∈ tables, Name.canonical t.name = t.name) ∧
      (tables.map fun t => Name.canonical t.name).Nodup := by
  obtain ⟨hall, hnodup, -⟩ := sourceTables_eq_ok_iff.mp h
  have hname : ∀ t ∈ tables, Name.canonical t.name = t.name := by
    intro t ht
    obtain ⟨s, -, name, -, hget⟩ := exists_mem_of_forall₂ hall ht
    exact hc.canonical_name (hc.get_eq_ok_iff.mp hget).1
  refine ⟨hname, ?_⟩
  rwa [List.map_congr_left hname]

variable {name : String} {sources : List Source} {condition : Option Expr} {joined p : Plan}

/-- The plan for the star of a table, and that for all fields under it. -/
theorem exists_star_of_tableStar (hsources : sourceTables catalog [] sources = .ok tables)
    (h : ofSelect catalog { items := [.tableStar name], sources, condition } = .ok p) :
    ∃ joined t, ofSelect catalog { items := [.star], sources, condition } = .ok joined ∧
      base tables condition = .ok joined ∧ t ∈ tables ∧ t.name = Name.canonical name ∧
      p = if tables.length = 1 then joined else project joined (columnsOf t) := by
  obtain ⟨list, tables', joined, chosen, hlist, hsome, htables, hjoined, hchosen, hordered⟩ :=
    ofSelect_eq_ok_iff.mp h
  obtain rfl : tables' = tables := Except.ok.inj (htables.symm.trans hsources)
  cases hlist
  cases hordered
  simp only [selected] at hchosen
  split at hchosen
  · cases hchosen
  · rename_i t ht
    have hname : t.name = Name.canonical name := by simpa using List.find?_some ht
    refine ⟨joined, t, ?_, hjoined, List.mem_of_find?_eq_some ht, hname, ?_⟩
    · exact ofSelect_eq_ok_iff.mpr
        ⟨.star none, tables', joined, joined, rfl, hsome, htables, hjoined, rfl, rfl⟩
    · exact (Except.ok.inj hchosen).symm

/-- A projection onto the columns of a table hands out, for each joined row, the fields under their
names. -/
theorem yield_columnsOf {op : Operator}
    (hnames : ((front ++ t :: back).map fun t => Name.canonical t.name).Nodup)
    (hname : Name.canonical t.name = t.name) (hdata : RowsFit fs (front ++ t :: back))
    (htables : joined.tables = front ++ t :: back) (hbase : joined.IsBase)
    (hop : (project joined (columnsOf t)).bound = .ok op) :
    ∃ input, joined.bound = .ok input ∧ op.yield fs =
      ⟨(input.yield fs).rows.map (underNames front t), (input.yield fs).error⟩ := by
  obtain ⟨input, hinput, hop⟩ := bind_eq_ok_iff.mp hop
  obtain ⟨indexes, hindexes, hop⟩ := bind_eq_ok_iff.mp hop
  cases hop
  rw [htables] at hindexes
  refine ⟨input, hinput, ?_⟩
  have hlt : ∀ r ∈ (input.yield fs).rows, ∀ i ∈ indexes, i < r.width := by
    intro r hr
    have hmem := Hands.mem_product hbase ⟨input, hinput, hr⟩
    rw [htables] at hmem
    exact index_lt_of_resolve hdata hindexes hmem
  rw [Operator.yield, bind_picked hlt, indexes_of_columnsOf hnames hname hindexes]
  simp only [List.filterMap_map]
  rfl

theorem width_of_hands (hdata : RowsFit fs joined.tables) (hbase : joined.IsBase)
    (h : joined.Hands fs r) : r.width = widthOf (scopeTables joined.tables) :=
  width_product hdata (h.mem_product hbase)

/-- **The star of a table.**  Over tables of a schema that has been loaded, and data as wide as the
tables, the star of a table hands out the rows of `SELECT *` over the same tables under the same
condition, and fails where that fails; each row is cut down to what the table contributes, if it is
the only table or the names of its columns differ.  In any case the star of one of several tables
shows the fields under the names of the columns. -/
theorem tableStar_cut {c₀ : Catalog} {fs₀ fs₁ : Files} {schema dir : Path} {n : Nat} {p : Prepared}
    (hc : c₀.Consistent) (hload : Schema.load c₀ fs₀ schema dir = (.ok n, catalog, fs₁))
    (hsources : sourceTables catalog [] sources = .ok tables) (hdata : RowsFit fs tables)
    (hp : prepare fs catalog { items := [.tableStar name], sources, condition } = .ok p) :
    ∃ whole front t back,
      prepare fs catalog { items := [.star], sources, condition } = .ok whole ∧
      tables = front ++ t :: back ∧ t.name = Name.canonical name ∧
      (p.cursor.drain fs).2.1 = (whole.cursor.drain fs).2.1 ∧
      (tables.length = 1 ∨ (t.columnNames.map Name.canonical).Nodup →
        (p.cursor.drain fs).1 = (whole.cursor.drain fs).1.map (cutTo front t)) ∧
      (tables.length ≠ 1 →
        (p.cursor.drain fs).1 = (whole.cursor.drain fs).1.map (underNames front t)) := by
  obtain ⟨hcanonical, hnames⟩ := canonical_of_sourceTables (consistent_of_load hc hload) hsources
  obtain ⟨hplan, -, hcursor⟩ := prepare_eq_ok_iff.mp hp
  obtain ⟨joined, t, hstar, hjoined, ht, hname, hchosen⟩ := exists_star_of_tableStar hsources hplan
  obtain rfl := tables_of_base hjoined
  have hbase := isBase_of_base hjoined
  have hwhole : ∀ {c : Cursor}, joined.instantiate fs = .ok c →
      prepare fs catalog { items := [.star], sources, condition } =
        .ok ⟨joined, joined.labels, c⟩ := fun hinput =>
    prepare_eq_ok_iff.mpr ⟨hstar, rfl, hinput⟩
  -- the star of the only table is planned as a bare star; else the columns are projected by name
  by_cases hone : joined.tables.length = 1
  · rw [if_pos hone] at hchosen
    rw [hchosen] at hcursor
    obtain ⟨u, hu⟩ := List.length_eq_one_iff.mp hone
    obtain rfl : t = u := List.mem_singleton.mp (hu ▸ ht)
    refine ⟨_, [], t, [], hwhole hcursor, hu, hname, rfl, fun _ => ?_, fun hmany =>
      absurd hone hmany⟩
    have hsame : ∀ r ∈ (p.cursor.drain fs).1, cutTo [] t r = id r := by
      intro r hr
      refine cutTo_only ?_
      rw [width_of_hands hdata hbase (hands_of_drain (hwhole hcursor) hr), hu, scopeTables,
        List.map_singleton, widthOf_cons, widthOf_nil, width_ofTable, Nat.add_zero]
    rw [List.map_congr_left hsame, List.map_id]
  · rw [if_neg hone] at hchosen
    rw [hchosen] at hcursor
    obtain ⟨front, back, hsplit⟩ := List.append_of_mem ht
    obtain ⟨input, hinput, -⟩ := bind_eq_ok_iff.mp hcursor
    obtain ⟨hop, hstart⟩ := bound_of_instantiate hcursor
    rw [hsplit] at hnames hdata
    obtain ⟨op, hbound, hyield⟩ := yield_columnsOf hnames (hcanonical t ht) hdata hsplit hbase hop
    have hdrain := (Cursor.drain_of_start hstart).trans hyield
    rw [← (drain_of_bound hinput hbound).2] at hdrain
    have hrows : (p.cursor.drain fs).1 = (input.drain fs).1.map (underNames front t) :=
      congrArg Yield.rows hdrain
    refine ⟨_, front, t, back, hwhole hinput, hsplit, hname, congrArg Yield.error hdrain, ?_,
      fun _ => hrows⟩
    intro hexact
    rw [hrows]
    exact List.map_congr_left fun r _ => underNames_of_nodup (hexact.resolve_left hone) front r

/-! ### Two tables side by side -/

/-- A table whose two columns have the given names. -/
def wideTable (a b : String) : Table :=
  { id := 1, name := "t", columns := [{ name := a }, { name := b }], dataFile := ⟨"db/t.csv"⟩ }

def narrowTable : Table :=
  { id := 2, name := "s", columns := [{ name := "c" }], dataFile := ⟨"db/s.csv"⟩ }

def wideCatalog (a b : String) : Catalog where
  tables := [wideTable a b, narrowTable]
  index := [("s", 2), ("t", 1)]
  lastId := 2

/-- A database of two tables of a row each, with a schema. -/
def wideFiles (schema : String) : Files where
  entries := [(["db"], .directory), (["db", "schema.txt"], .file 0), (["db", "t.csv"], .file 1),
    (["db", "s.csv"], .file 2)]
  contents := [.text schema, .text "1,2\n", .text "3\n"]

/-- The columns of the first table have different names. -/
def differingFiles : Files := wideFiles "t a b\ns c\n"

def doubledFiles : Files := wideFiles "t a a\ns c\n"

def wideBeside (a b : String) : Prepared where
  plan := .join (.scan (wideTable a b)) (.scan narrowTable) none
  labels := ["t." ++ a, "t." ++ b, "s.c"]
  cursor :=
    { op := .join (.scan (wideTable a b)) (.scan narrowTable) none
      state := { left := { node := .file 1 }, right := { node := .file 2 } } }

def wideStar (a b : String) (indexes : List Nat) : Prepared where
  plan := .project (.join (.scan (wideTable a b)) (.scan narrowTable) none)
    (columnsOf (wideTable a b))
  labels := ["t." ++ a, "t." ++ b]
  cursor :=
    { op := .project (.join (.scan (wideTable a b)) (.scan narrowTable) none) indexes
        ["t." ++ a, "t." ++ b]
      state := { left := { node := .file 1 }, right := { node := .file 2 } } }

/-- The columns `a` and `b` of a table that is joined with another one. -/
theorem tableStar_cut_sample :
    (({} : Catalog).Consistent ∧
      Schema.load {} differingFiles ⟨"db/schema.txt"⟩ ⟨"db"⟩ =
        (.ok 2, wideCatalog "a" "b", differingFiles) ∧
      sourceTables (wideCatalog "a" "b") [] [.table "t", .table "s"] =
        .ok [wideTable "a" "b", narrowTable] ∧
      RowsFit differingFiles [wideTable "a" "b", narrowTable] ∧
      prepare differingFiles (wideCatalog "a" "b")
          { items := [.tableStar "T"], sources := [.table "t", .table "s"] } =
        .ok (wideStar "a" "b" [0, 1])) ∧
    ∃ whole front t back,
      prepare differingFiles (wideCatalog "a" "b")
        { items := [.star], sources := [.table "t", .table "s"] } = .ok whole ∧
      [wideTable "a" "b", narrowTable] = front ++ t :: back ∧ t.name = Name.canonical "T" ∧
      ((wideStar "a" "b" [0, 1]).cursor.drain differingFiles).2.1 =
        (whole.cursor.drain differingFiles).2.1 ∧
      ([wideTable "a" "b", narrowTable].length = 1 ∨
          (t.columnNames.map Name.canonical).Nodup →
        ((wideStar "a" "b" [0, 1]).cursor.drain differingFiles).1 =
          (whole.cursor.drain differingFiles).1.map (cutTo front t)) ∧
      ([wideTable "a" "b", narrowTable].length ≠ 1 →
        ((wideStar "a" "b" [0, 1]).cursor.drain differingFiles).1 =
          (whole.cursor.drain differingFiles).1.map (underNames front t)) := by
  have hload : Schema.load {} differingFiles ⟨"db/schema.txt"⟩ ⟨"db"⟩ =
      (.ok 2, wideCatalog "a" "b", differingFiles) := rfl
  have hsources : sourceTables (wideCatalog "a" "b") [] [.table "t", .table "s"] =
      .ok [wideTable "a" "b", narrowTable] := rfl
  have hdata : RowsFit differingFiles [wideTable "a" "b", narrowTable] :=
    List.forall_mem_cons.mpr ⟨by decide, List.forall_mem_singleton.mpr (by decide)⟩
  have hprepare : prepare differingFiles (wideCatalog "a" "b")
      { items := [.tableStar "T"], sources := [.table "t", .table "s"] } =
        .ok (wideStar "a" "b" [0, 1]) := rfl
  have hempty : ({} : Catalog).Consistent := .empty none
  exact ⟨⟨hempty, hload, hsources, hdata, hprepare⟩,
    tableStar_cut hempty hload hsources hdata hprepare⟩

/-- If a schema declares two columns of one name, the star of the table shows the first of them
twice beside another table. -/
theorem not_tableStar_cut :
    ¬ ∀ (c₀ catalog : Catalog) (fs₀ fs₁ fs : Files) (schema dir : Path) (n : Nat) (name : String)
      (sources : List Source) (condition : Option Expr) (front back : List Table) (t : Table)
      (p whole : Prepared), c₀.Consistent →
      Schema.load c₀ fs₀ schema dir = (.ok n, catalog, fs₁) →
      sourceTables catalog [] sources = .ok (front ++ t :: back) →
      t.name = Name.canonical name → RowsFit fs (front ++ t :: back) →
      prepare fs catalog { items := [.tableStar name], sources, condition } = .ok p →
      prepare fs catalog { items := [.star], sources, condition } = .ok whole →
      (p.cursor.drain fs).2.1 = none →
      (p.cursor.drain fs).1 = (whole.cursor.drain fs).1.map (cutTo front t) := by
  intro hall
  have hstar := @Cursor.drain_of_start doubledFiles (wideStar "a" "a" [0, 0]).cursor rfl
  have hbeside := @Cursor.drain_of_start doubledFiles (wideBeside "a" "a").cursor rfl
  have hend : ((wideStar "a" "a" [0, 0]).cursor.drain doubledFiles).2.1 = none :=
    (congrArg Yield.error hstar).trans (by decide)
  have hdata : RowsFit doubledFiles [wideTable "a" "a", narrowTable] :=
    List.forall_mem_cons.mpr ⟨by decide, List.forall_mem_singleton.mpr (by decide)⟩
  have hcut := hall {} (wideCatalog "a" "a") doubledFiles doubledFiles doubledFiles
    ⟨"db/schema.txt"⟩ ⟨"db"⟩ 2 "t" [.table "t", .table "s"] none [] [narrowTable]
    (wideTable "a" "a") (wideStar "a" "a" [0, 0]) (wideBeside "a" "a") (.empty none) rfl rfl rfl
    hdata rfl rfl hend
  have hrows : ((wideStar "a" "a" [0, 0]).cursor.drain doubledFiles).1 = [⟨["1", "1"]⟩] :=
    (congrArg Yield.rows hstar).trans (by decide)
  have hwhole : ((wideBeside "a" "a").cursor.drain doubledFiles).1 = [⟨["1", "2", "3"]⟩] :=
    (congrArg Yield.rows hbeside).trans (by decide)
  rw [hrows, hwhole] at hcut
  exact absurd hcut (by decide)

end FlatQuery.Plan
