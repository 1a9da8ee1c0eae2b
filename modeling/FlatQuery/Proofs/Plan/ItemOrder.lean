import FlatQuery.Proofs.Plan.Layout

/-!
# Ordering by what is selected

ORDER BY looks for a label among the labels of the output.  The label of a selected column is put
together of canonical parts, and the label that ORDER BY looks for is the canonical form of the
whole reference.  Where both are the same, and no other item has that label, an item that is
repeated in ORDER BY is found, and the key holds its value in every row (`ordered_by_item`).
Otherwise the item may not be found, or another one in its place (`not_ordered_by_item`).
-/

namespace FlatQuery

open Rows Outcome

/-! ### Labels of columns -/

namespace Text

theorem Trimmed.dotted {front back : List Char} (hfront : Trimmed front) (hback : Trimmed back) :
    Trimmed (front ++ '.' :: back) := by
  refine ⟨fun c hc => ?_, fun c hc => ?_⟩
  · cases front with
    | nil =>
      cases hc
      decide
    | cons d front => exact hfront.1 c hc
  · rw [List.getLast?_append_cons] at hc
    cases back with
    | nil =>
      cases hc
      decide
    | cons d back => exact hback.2 c hc

end Text

namespace Name

open Text

theorem isLower_of_mem_canonical {s : String} {c : Char} (h : c ∈ (canonical s).toList) :
    IsLower c := by
  rw [canonical, lowercase, String.toList_ofList] at h
  exact isLower_of_mem_lowerAfter h

theorem trimmed_canonical (s : String) : Trimmed (canonical s).toList := by
  rw [← trim_canonical s, trim, String.toList_ofList]
  exact trimmed_trimChars _

theorem canonical_dotted (s t : String) :
    canonical (canonical s ++ "." ++ canonical t) = canonical s ++ "." ++ canonical t := by
  have hlist : (canonical s ++ "." ++ canonical t).toList =
      (canonical s).toList ++ '.' :: (canonical t).toList := by
    simp [String.toList_append]
  have hlower : ∀ c ∈ (canonical s).toList ++ '.' :: (canonical t).toList, IsLower c := by
    intro c hc
    rcases List.mem_append.mp hc with hc | hc
    · exact isLower_of_mem_canonical hc
    · rcases List.mem_cons.mp hc with rfl | hc
      · decide
      · exact isLower_of_mem_canonical hc
  rw [canonical, lowercase, trim, hlist, String.toList_ofList,
    trimChars_of_trimmed ((trimmed_canonical s).dotted (trimmed_canonical t)),
    lowerAfter_of_isLower hlower, ← hlist, String.ofList_toList]

end Name

namespace ColumnRef

theorem label_canonical_qualified (t column : String) :
    (canonical { table := some t, column }).label =
      Name.canonical t ++ "." ++ Name.canonical column :=
  Name.canonical_dotted t column

theorem label_canonical_bare (column : String) :
    (canonical { column }).label = label { column } :=
  Name.canonical_canonical column

end ColumnRef

/-! ### Canonical expressions -/

namespace Expr

mutual

/-- The expression with its names in canonical form; strings stay as they are. -/
def canonical : Expr → Expr
  | column c => column c.canonical
  | literal v => literal v
  | binary l op r => binary l.canonical op r.canonical
  | call name args => call (Name.canonical name) (canonicalArguments args)
  | nested e => nested e.canonical

def canonicalArguments : List Argument → List Argument
  | [] => []
  | a :: rest => canonicalArgument a :: canonicalArguments rest

def canonicalArgument : Argument → Argument
  | .expr e => .expr e.canonical
  | .star => .star

end

theorem eq_single_of_canonicalArguments {e : Expr} {args : List Argument}
    (h : canonicalArguments [.expr e] = canonicalArguments args) :
    ∃ e', args = [.expr e'] ∧ e.canonical = e'.canonical := by
  match args with
  | [] => simp only [canonicalArguments, reduceCtorEq] at h
  | [.star] => simp only [canonicalArguments, canonicalArgument, List.cons.injEq, reduceCtorEq,
      false_and] at h
  | [.expr e'] =>
    simp only [canonicalArguments, canonicalArgument, List.cons.injEq, Argument.expr.injEq,
      and_true] at h
    exact ⟨e', rfl, h⟩
  | a :: b :: rest => simp only [canonicalArguments, List.cons.injEq, reduceCtorEq, and_false] at h

theorem amount_canonical {v : ColumnRef → Option String} (hv : ∀ c, v c.canonical = v c)
    (e : Expr) : e.canonical.amount v = e.amount v := by
  induction e using shallow with
  | column c => exact congrArg (Option.bind · Integer.ofField?) (hv c)
  | literal u => rfl
  | binary l op r ihl ihr =>
    cases op with
    | times => simp only [canonical, amount, ihl, ihr]
    | _ => simp only [canonical, amount]
  | nested e ih => exact ih
  | call name args => simp only [canonical, amount]

end Expr

namespace Plan

/-! ### Finding a label -/

theorem fieldOf_of_getElem {labels : List String} {label : String} {k : Nat}
    (h : labels[k]? = some label) :
    ∃ i ≤ k, fieldOf? labels label = some i ∧ labels[i]? = some label := by
  obtain ⟨hk, hlabel⟩ := List.getElem?_eq_some_iff.mp h
  cases hi : labels.idxOf? label with
  | none => exact absurd (hlabel ▸ List.getElem_mem hk) (List.idxOf?_eq_none_iff.mp hi)
  | some i =>
    obtain ⟨hlt, hfound, hfirst⟩ := List.idxOf?_eq_some_iff.mp hi
    refine ⟨i, ?_, ?_, ?_⟩
    · by_contra hik
      exact hfirst k (Nat.lt_of_not_le hik) hlabel
    · unfold fieldOf?
      rw [hi]
    · rw [List.getElem?_eq_getElem hlt, hfound]

/-- That an expression of a SELECT list is listed under a label. -/
def ListedAs : Expr → String → Prop
  | .column c, label => label = c.canonical.label
  | e, label => orderLabel e = .ok label

theorem listedAs_call {name : String} {argument : Expr} (hname : Name.canonical name = "sum") :
    ListedAs (.call name [.expr argument])
      (Aggregate.label { function := .sum, argument := some argument }) := by
  unfold ListedAs orderLabel
  exact if_pos hname

/-- The label that ORDER BY looks for is the one of the item, if the parts of a qualified column are
spelled in such a way that they can be put together before they are made canonical. -/
theorem orderLabel_of_listedAs {e : Expr} {label : String} (h : ListedAs e label)
    (hspelled : ∀ t column, e = .column { table := some t, column } →
      Name.canonical (t ++ "." ++ column) = Name.canonical t ++ "." ++ Name.canonical column) :
    orderLabel e = .ok label := by
  cases e with
  | column c =>
    obtain rfl : label = c.canonical.label := h
    obtain ⟨_ | t, column⟩ := c
    · exact congrArg Except.ok (ColumnRef.label_canonical_bare column).symm
    · rw [ColumnRef.label_canonical_qualified]
      exact congrArg Except.ok (hspelled t column rfl)
  | _ => exact h

theorem eq_of_map_expr {columns : List ColumnRef} {calls es : List Expr}
    (h : columns.map (fun c => .expr (.column c)) ++ calls.map .expr = es.map SelectItem.expr) :
    es = columns.map .column ++ calls := by
  have hinj : Function.Injective (List.map SelectItem.expr) :=
    List.map_injective_iff.mpr fun _ _ => SelectItem.expr.inj
  refine hinj (h.symm.trans ?_)
  rw [List.map_append, List.map_map]
  rfl

/-- The fields of what is selected have the labels of the items, in their order. -/
theorem listedAs_of_selected {items : List SelectItem} {groupBy es : List Expr} {list : SelectList}
    {tables : List Table} {input m : Plan} (hlist : SelectList.Reads items groupBy list)
    (hitems : items = es.map .expr) (hm : selected list tables input = .ok m) :
    List.Forall₂ ListedAs es m.labels := by
  cases hlist with
  | star =>
    rcases es with _ | ⟨e, es⟩ <;> cases hitems
  | tableStar name =>
    rcases es with _ | ⟨e, es⟩ <;> cases hitems
  | @listed columns keys calls aggregates hcalls hsub =>
    rw [eq_of_map_expr hitems]
    have hcolumns : List.Forall₂ ListedAs (columns.map .column)
        ((columns.map (·.canonical)).map (·.label)) := by
      rw [List.map_map, List.forall₂_map_left_iff, List.forall₂_map_right_iff, List.forall₂_same]
      exact fun c _ => rfl
    rcases selected_listed_cases (columns.map (·.canonical)) (keys.map (·.canonical)) aggregates
      with ⟨e, h⟩ | ⟨sums, labels, hsums, h⟩ | ⟨rfl, -, h⟩
    · rw [h] at hm
      cases hm
    · rw [h] at hm
      cases hm
      have hcalls' := SelectList.calls_of_sumsOf hcalls hsums
      obtain ⟨rfl, rfl⟩ := SelectList.eq_of_sumsOf hsums
      refine List.rel_append hcolumns ?_
      rw [List.map_map, List.forall₂_map_right_iff]
      refine hcalls'.imp fun call argument hcall => ?_
      obtain ⟨name, rfl, hname⟩ := hcall
      exact listedAs_call hname
    · rw [h] at hm
      cases hm
      cases hcalls
      rwa [List.append_nil]

/-! ### What output rows hold -/

/-- That a text is the value of an item of a SELECT list over some rows of the joined tables: the
value that a column has in each of them, or their sum. -/
inductive Stands (s : Scope) (members : List Row) : Expr → String → Prop
  | column {c : ColumnRef} {v : String} (hsome : members ≠ [])
      (h : ∀ r ∈ members, s.value r c = some v) : Stands s members (.column c) v
  | sum {name : String} {argument : Expr} {n : Int} (h : IsTotal s members argument n) :
      Stands s members (.call name [.expr argument]) (Integer.toText n)

variable {s : Scope} {members : List Row}

/-- The value of an item does not depend on how names are spelled in it. -/
theorem Stands.of_canonical {e e' : Expr} {v : String} (h : Stands s members e v)
    (he : e.canonical = e'.canonical) : Stands s members e' v := by
  cases h with
  | @column c v hsome h =>
    cases e' with
    | column c' =>
      have hc : c.canonical = c'.canonical := Expr.column.inj he
      refine .column hsome fun r hr => ?_
      rw [← Scope.value_canonical, ← hc, Scope.value_canonical]
      exact h r hr
    | _ => simp only [Expr.canonical, reduceCtorEq] at he
  | @sum name argument n h =>
    cases e' with
    | call name' args =>
      rw [Expr.canonical, Expr.canonical, Expr.call.injEq] at he
      obtain ⟨argument', rfl, hargument⟩ := Expr.eq_single_of_canonicalArguments he.2
      obtain ⟨ms, hms, rfl⟩ := h
      refine .sum ⟨ms, hms.imp fun r m hm => ?_, rfl⟩
      rw [← Expr.amount_canonical (Scope.value_canonical s r), ← hargument,
        Expr.amount_canonical (Scope.value_canonical s r)]
      exact hm
    | _ => simp only [Expr.canonical, reduceCtorEq] at he

/-- The fields of a row that hold what columns have in each of some rows. -/
theorem stands_of_valuesIn {columns : List ColumnRef} {shown : List String}
    (hsome : members ≠ []) (h : ∀ r ∈ members, shown.map some = valuesIn s columns r) :
    List.Forall₂ (Stands s members) (columns.map .column) shown := by
  have hvalues : List.Forall₂ (fun c v => ∀ r ∈ members, s.value r c = some v) columns shown := by
    obtain ⟨r₀, hr₀⟩ := List.exists_mem_of_ne_nil members hsome
    have hlength : columns.length = shown.length := by
      simpa [valuesIn] using (congrArg List.length (h r₀ hr₀)).symm
    refine List.forall₂_iff_get.mpr ⟨hlength, fun i hc hv r hr => ?_⟩
    have hi : (shown.map some)[i]? = (valuesIn s columns r)[i]? := congrArg (·[i]?) (h r hr)
    simpa [valuesIn, hc, hv] using hi.symm
  rw [List.forall₂_map_left_iff]
  exact hvalues.imp fun c v hv => .column hsome hv

theorem stands_of_totals {calls sums : List Expr} {totals : List Int}
    (hcalls : List.Forall₂ (fun call e => ∃ name, call = .call name [.expr e] ∧
      Name.canonical name = "sum") calls sums)
    (h : List.Forall₂ (IsTotal s members) sums totals) :
    List.Forall₂ (Stands s members) calls (totals.map Integer.toText) := by
  induction hcalls generalizing totals with
  | nil =>
    cases h
    exact .nil
  | cons hcall _ ih =>
    obtain ⟨name, rfl, -⟩ := hcall
    cases h with
    | cons hn hrest => exact .cons (.sum hn) (ih hrest)

/-- A row of a grouping is made of some of the rows, or it is the row of zeros. -/
theorem exists_of_isGrouping {keys columns : List ColumnRef} {sums : List Expr}
    {rows out : List Row} (h : IsGrouping s keys columns sums rows out) {o : Row} (ho : o ∈ out) :
    (columns = [] ∧ o = ⟨sums.map fun _ => Integer.toText 0⟩) ∨
      ∃ members ⊆ rows, members ≠ [] ∧ IsGroupRow s columns sums members o := by
  unfold IsGrouping at h
  split at h
  · rename_i hzero
    exact .inl ⟨hzero.2.2, List.mem_singleton.mp (h ▸ ho)⟩
  · obtain ⟨key, hkey, hrow⟩ := exists_mem_of_forall₂ h ho
    obtain ⟨r, hr, hvalues⟩ := List.mem_map.mp (List.mem_eraseDups.mp hkey)
    have hmember : r ∈ rows.filter fun r => valuesIn s keys r = key :=
      List.mem_filter.mpr ⟨hr, decide_eq_true hvalues⟩
    exact .inr ⟨_, List.filter_subset_self _, List.ne_nil_of_mem hmember, hrow⟩

/-- Each of the rows that are grouped is one of those that some row of the grouping is made of. -/
theorem exists_groupRow_of_mem {keys columns : List ColumnRef} {sums : List Expr}
    {rows out : List Row} (h : IsGrouping s keys columns sums rows out) {r : Row} (hr : r ∈ rows) :
    ∃ o ∈ out, ∃ members, r ∈ members ∧ IsGroupRow s columns sums members o := by
  unfold IsGrouping at h
  rw [if_neg fun hnil => List.not_mem_nil (hnil.1 ▸ hr)] at h
  have hkey : valuesIn s keys r ∈ (rows.map (valuesIn s keys)).eraseDups :=
    List.mem_eraseDups.mpr (List.mem_map_of_mem hr)
  obtain ⟨o, ho, hrow⟩ := exists_mem_of_forall₂ h.flip hkey
  exact ⟨o, ho, _, List.mem_filter.mpr ⟨hr, decide_eq_true rfl⟩, hrow⟩

/-- Each row of what is selected holds the values of the items over some of the joined rows. -/
theorem Chosen.stands {tables : List Table} {items : List SelectItem} {groupBy es : List Expr}
    {rows out : List Row} (h : Chosen tables items groupBy rows out) (hitems : items = es.map .expr)
    {o : Row} (ho : o ∈ out) :
    ∃ members ⊆ rows, List.Forall₂ (Stands (.ofTables tables) members) es o.fields := by
  cases h with
  | star =>
    rcases es with _ | ⟨e, es⟩ <;> cases hitems
  | onlyStar ht hname =>
    rcases es with _ | ⟨e, es⟩ <;> cases hitems
  | tableStar hmany ht h =>
    rcases es with _ | ⟨e, es⟩ <;> cases hitems
  | @columns columns _ _ h =>
    have hes := @eq_of_map_expr columns [] es (by rw [List.map_nil, List.append_nil, hitems])
    rw [List.append_nil] at hes
    obtain ⟨r, hr, hfields⟩ := exists_mem_of_forall₂ h ho
    refine ⟨[r], List.cons_subset.mpr ⟨hr, List.nil_subset _⟩, hes ▸ ?_⟩
    exact stands_of_valuesIn (List.cons_ne_nil r []) (List.forall_mem_singleton.mpr hfields)
  | @groups columns keys calls sums _ _ hsome hcalls h =>
    rw [eq_of_map_expr hitems]
    rcases exists_of_isGrouping h ho with ⟨rfl, rfl⟩ | ⟨members, hmembers, hne, hrow⟩
    · have hzeros : List.Forall₂ (IsTotal (.ofTables tables) []) sums (sums.map fun _ => 0) := by
        rw [List.forall₂_map_right_iff, List.forall₂_same]
        exact fun e _ => ⟨[], .nil, rfl⟩
      refine ⟨[], List.nil_subset _, ?_⟩
      simpa using stands_of_totals hcalls hzeros
    · obtain ⟨shown, totals, hfields, hshown, htotals⟩ := hrow
      refine ⟨members, hmembers, ?_⟩
      rw [hfields]
      exact List.rel_append (stands_of_valuesIn hne hshown) (stands_of_totals hcalls htotals)

/-! ### Repeated items -/

/-- **ORDER BY may repeat an item of the SELECT list.**  Let a query be planned without ORDER BY,
and take an item of its SELECT list.  Let the name of a qualified column be the same made canonical
as a whole as part by part, and let no item before have the label of the item unless it has the same
names.  Then the query is planned with ORDER BY that item too.  The key is the position of an item
that has the same names; and in every row that is sorted, whatever the data, the field there is the
value of the item over the joined rows that the row is made of. -/
theorem ordered_by_item {catalog : Catalog} {q : Select} {p : Plan} {es : List Expr} {k : Nat}
    {e : Expr} (hp : ofSelect catalog { q with orderBy := [] } = .ok p)
    (hitems : q.items = es.map .expr) (he : es[k]? = some e)
    (hspelled : ∀ t column, e = .column { table := some t, column } →
      Name.canonical (t ++ "." ++ column) = Name.canonical t ++ "." ++ Name.canonical column)
    (hfirst : ∀ i < k, ∀ e', es[i]? = some e' → p.labels[i]? = p.labels[k]? →
      e'.canonical = e.canonical)
    (ascending : Bool) :
    ∃ key tables joined,
      ofSelect catalog { q with orderBy := [{ expr := e, ascending }] } = .ok (.sort p [key]) ∧
      key.ascending = ascending ∧
      (∃ e', es[key.index]? = some e' ∧ e'.canonical = e.canonical) ∧
      sourceTables catalog [] q.sources = .ok tables ∧ base tables q.condition = .ok joined ∧
      ∀ fs rows, HandsOut fs p rows → ∃ source, HandsOut fs joined source ∧
        ∀ o ∈ rows, ∃ members ⊆ source,
          List.Forall₂ (Stands (.ofTables tables) members) es o.fields ∧
          ∃ v, o.fields[key.index]? = some v ∧ Stands (.ofTables tables) members e v := by
  obtain ⟨list, tables, joined, chosen, hlist, hsome, htables, hjoined, hchosen, hordered⟩ :=
    ofSelect_eq_ok_iff.mp hp
  have hreads := SelectList.reads_of_analyse hlist
  obtain rfl : p = deduplicated q.distinct chosen := by
    rcases ordered_eq_ok_iff.mp hordered with ⟨-, h⟩ | ⟨h, -⟩
    · exact h
    · exact absurd rfl h
  -- the item is found under its label, at an item that is spelled like it
  have hlisted : List.Forall₂ ListedAs es (deduplicated q.distinct chosen).labels := by
    rw [labels_deduplicated]
    exact listedAs_of_selected hreads hitems hchosen
  obtain ⟨label, hlabel, hlistedAs⟩ := getElem?_of_forall₂ hlisted he
  have horder := orderLabel_of_listedAs hlistedAs hspelled
  obtain ⟨i, hik, hfield, hi⟩ := fieldOf_of_getElem hlabel
  obtain ⟨e', he', hsame⟩ : ∃ e', es[i]? = some e' ∧ e'.canonical = e.canonical := by
    rcases Nat.lt_or_eq_of_le hik with hlt | rfl
    · obtain ⟨e', he', -⟩ := getElem?_of_forall₂ hlisted.flip hi
      exact ⟨e', he', hfirst i hlt e' he' (hi.trans hlabel.symm)⟩
    · exact ⟨e, he, rfl⟩
  refine ⟨⟨label, i, ascending⟩, tables, joined, ?_, rfl, ⟨e', he', hsame⟩, htables, hjoined, ?_⟩
  · refine ofSelect_eq_ok_iff.mpr ⟨list, tables, joined, chosen, hlist, hsome, htables, hjoined,
      hchosen, ordered_eq_ok_iff.mpr (.inr ⟨List.cons_ne_nil _ _, _, ?_, rfl⟩)⟩
    simp only [orderKeys, List.mapM_cons, List.mapM_nil, orderKey, horder, hfield, ok_bind,
      pure_eq_ok]
  · intro fs rows hrows
    obtain ⟨kept, hkept, rfl⟩ := hrows.deduplicated
    obtain ⟨source, hsource, hout⟩ := hkept.selected hreads hchosen (tables_of_base hjoined)
    refine ⟨source, hsource, fun o ho => ?_⟩
    have ho' : o ∈ kept := by
      split at ho
      · exact List.mem_eraseDups.mp ho
      · exact ho
    obtain ⟨members, hmembers, hstands⟩ := hout.stands hitems ho'
    obtain ⟨v, hv, hstand⟩ := getElem?_of_forall₂ hstands he'
    exact ⟨members, hmembers, hstands, v, hv, hstand.of_canonical hsame⟩

def markItems : List Expr :=
  [.column { column := "pupil" }, .column { table := some "Marks", column := "Mark" }]

def markQuery : Select where
  items := markItems.map .expr
  sources := [.table "marks"]

def markPlan : Plan :=
  .project (.scan Sample.marks)
    [{ column := "pupil" }, { table := some "marks", column := "mark" }]

/-- The highest marks come first. -/
theorem ordered_by_item_sample :
    let e := Expr.column { table := some "Marks", column := "Mark" }
    (ofSelect sampleCatalog { markQuery with orderBy := [] } = .ok markPlan ∧
      markQuery.items = markItems.map .expr ∧ markItems[1]? = some e ∧
      Name.canonical ("Marks" ++ "." ++ "Mark") =
        Name.canonical "Marks" ++ "." ++ Name.canonical "Mark" ∧
      markPlan.labels[0]? ≠ markPlan.labels[1]?) ∧
    ∃ key tables joined,
      ofSelect sampleCatalog { markQuery with orderBy := [{ expr := e, ascending := false }] } =
        .ok (.sort markPlan [key]) ∧
      key.ascending = false ∧
      (∃ e', markItems[key.index]? = some e' ∧ e'.canonical = e.canonical) ∧
      sourceTables sampleCatalog [] markQuery.sources = .ok tables ∧
      base tables markQuery.condition = .ok joined ∧
      ∀ fs rows, HandsOut fs markPlan rows → ∃ source, HandsOut fs joined source ∧
        ∀ o ∈ rows, ∃ members ⊆ source,
          List.Forall₂ (Stands (.ofTables tables) members) markItems o.fields ∧
          ∃ v, o.fields[key.index]? = some v ∧ Stands (.ofTables tables) members e v := by
  intro e
  have hplan : ofSelect sampleCatalog { markQuery with orderBy := [] } = .ok markPlan := rfl
  have hspelled : Name.canonical ("Marks" ++ "." ++ "Mark") =
      Name.canonical "Marks" ++ "." ++ Name.canonical "Mark" := by decide
  have hlabels : markPlan.labels[0]? ≠ markPlan.labels[1]? := by decide
  have hitem : markItems[1]? = some e := rfl
  refine ⟨⟨hplan, rfl, hitem, hspelled, hlabels⟩, ordered_by_item hplan rfl hitem ?_ ?_ false⟩
  · intro t column h
    obtain ⟨ht, hcolumn⟩ := ColumnRef.mk.inj (Expr.column.inj h)
    obtain rfl : "Marks" = t := Option.some.inj ht
    obtain rfl : "Mark" = column := hcolumn
    exact hspelled
  · intro i hi e' _ hsame
    obtain rfl : i = 0 := Nat.lt_one_iff.mp hi
    exact absurd hsame hlabels

def narrowCatalog : Catalog where
  tables := [{ id := 1, name := "s", columns := [{ name := "c" }], dataFile := ⟨"s.csv"⟩ }]
  index := [("s", 1)]
  lastId := 1

/-- The column, with a blank in the quoted name of its table. -/
def blankItem : Expr :=
  .column { table := some "s ", column := "c" }

def blankQuery : Select where
  items := [.expr blankItem]
  sources := [.table "s"]

/-- A table, and another one whose column is named like a column of the first in full. -/
def dottedCatalog : Catalog where
  tables := [{ id := 1, name := "a", columns := [{ name := "b" }], dataFile := ⟨"pupils.csv"⟩ },
    { id := 2, name := "t", columns := [{ name := "a.b" }], dataFile := ⟨"marks.csv"⟩ }]
  index := [("a", 1), ("t", 2)]
  lastId := 2

def dottedItem : Expr :=
  .column { table := some "a", column := "b" }

/-- The pairs of values, the one of the second table first. -/
def dottedQuery : Select where
  items := [.expr (.column { column := "a.b" }), .expr dottedItem]
  sources := [.table "a", .table "t"]

/-- An item is accepted in the SELECT list and not found by ORDER BY; and of two items that have the
same label the first is sorted by, though it is the second that ORDER BY repeats. -/
theorem not_ordered_by_item :
    (∃ p, ofSelect narrowCatalog blankQuery = .ok p ∧
      ofSelect narrowCatalog { blankQuery with orderBy := [{ expr := blankItem }] } =
        .error (.orderNotSelected "s .c")) ∧
    ∃ p key fs, ofSelect dottedCatalog dottedQuery = .ok p ∧
      ofSelect dottedCatalog { dottedQuery with orderBy := [{ expr := dottedItem }] } =
        .ok (.sort p [key]) ∧
      key.index = 0 ∧ HandsOut fs p [⟨["7", "1"]⟩] := by
  refine ⟨⟨_, rfl, rfl⟩, _, _, Sample.filesWith "1\n" "7\n", rfl, rfl, rfl, ?_⟩
  refine handsOut_iff.mpr ⟨_, _, rfl, rfl, ?_, ?_⟩
  · decide
  · decide

end Plan

end FlatQuery
