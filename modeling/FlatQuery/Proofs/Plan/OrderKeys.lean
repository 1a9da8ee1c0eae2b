import FlatQuery.Proofs.Plan.ItemOrder
import FlatQuery.Proofs.Text.Pieces

/-!
# Which field ORDER BY means

ORDER BY looks for texts among texts: the label of an item among the labels of columns, with or
without a table, and of sums.  If the names of columns are simple, the text of a label tells what it
is the label of (`ColumnRef.text_inj`, `Plan.sumLabel_ne_text`), and the search among texts is one
among references (`Plan.order_keys_meant`): a column means the field of that column, a bare one also
the first field of a table's column of its name, and a sum means the field of the sum.
-/

namespace FlatQuery

open Outcome

/-! ### Simple names -/

/-- That a name is canonical and holds neither a dot nor an opening parenthesis. -/
structure Name.Simple (name : String) : Prop where
  canonical : Name.canonical name = name
  dot : '.' ∉ name.toList
  parenthesis : '(' ∉ name.toList

instance (name : String) : Decidable (Name.Simple name) :=
  decidable_of_iff (Name.canonical name = name ∧ '.' ∉ name.toList ∧ '(' ∉ name.toList)
    ⟨fun ⟨h, h', h''⟩ => ⟨h, h', h''⟩, fun ⟨h, h', h''⟩ => ⟨h, h', h''⟩⟩

namespace ColumnRef

/-- That the names in a reference are simple. -/
structure Simple (c : ColumnRef) : Prop where
  table : ∀ t ∈ c.table, Name.Simple t
  column : Name.Simple c.column

instance (c : ColumnRef) : Decidable c.Simple :=
  decidable_of_iff ((∀ t ∈ c.table, Name.Simple t) ∧ Name.Simple c.column)
    ⟨fun ⟨h, h'⟩ => ⟨h, h'⟩, fun ⟨h, h'⟩ => ⟨h, h'⟩⟩

variable {c d : ColumnRef}

theorem toList_text_qualified (t column : String) :
    (text { table := some t, column }).toList = t.toList ++ '.' :: column.toList := by
  simp [text, String.toList_append]

/-- The text of a reference with simple names is cut into table and column. -/
theorem Simple.cut_text (h : c.Simple) :
    Text.cutAt? '.' c.text = c.table.map fun t => (t, c.column) := by
  obtain ⟨_ | t, column⟩ := c
  · exact Text.cutAt_eq_none h.column.dot
  · exact Text.cutAt_eq_some_iff.mpr ⟨toList_text_qualified t column, (h.table t rfl).dot⟩

theorem text_inj (hc : c.Simple) (hd : d.Simple) : c.text = d.text ↔ c = d := by
  refine ⟨fun h => ?_, congrArg text⟩
  have hcut := congrArg (Text.cutAt? '.') h
  rw [hc.cut_text, hd.cut_text] at hcut
  obtain ⟨_ | t, column⟩ := c
  · obtain ⟨_ | u, other⟩ := d
    · obtain rfl : column = other := h
      rfl
    · cases hcut
  · obtain ⟨_ | u, other⟩ := d
    · cases hcut
    · cases hcut
      rfl

theorem Simple.label_eq_text (h : c.Simple) : c.label = c.text := by
  obtain ⟨_ | t, column⟩ := c
  · exact h.column.canonical
  · have hdotted := Name.canonical_dotted t column
    rwa [(h.table t rfl).canonical, h.column.canonical] at hdotted

theorem Simple.parenthesis (h : c.Simple) : '(' ∉ c.text.toList := by
  obtain ⟨_ | t, column⟩ := c
  · exact h.column.parenthesis
  · rw [toList_text_qualified, List.mem_append, List.mem_cons, not_or, not_or]
    exact ⟨(h.table t rfl).parenthesis, by decide, h.column.parenthesis⟩

end ColumnRef

namespace Plan

/-! ### Labels of sums -/

def sumLabel (e : Expr) : String :=
  Aggregate.label { function := .sum, argument := some e }

theorem exists_toList_sumLabel (e : Expr) :
    ∃ rest, (sumLabel e).toList = ['s', 'u', 'm', '('] ++ rest := by
  have hlist : ("sum" ++ "(" ++ e.text ++ ")").toList =
      's' :: 'u' :: 'm' :: '(' :: (e.text.toList ++ [')']) := by
    simp [String.toList_append]
  have htrimmed : Text.Trimmed ("sum" ++ "(" ++ e.text ++ ")").toList := by
    rw [hlist]
    refine ⟨fun c hc => ?_, fun c hc => ?_⟩
    · cases hc
      decide
    · simp only [← List.cons_append, List.getLast?_concat] at hc
      cases hc
      decide
  refine ⟨Text.lowerAfter ['(', 'm', 'u', 's'] (e.text.toList ++ [')']), ?_⟩
  show (Name.canonical ("sum" ++ "(" ++ e.text ++ ")")).toList = _
  rw [Name.canonical, Text.trim, Text.trimChars_of_trimmed htrimmed, String.ofList_toList,
    Text.lowercase, String.toList_ofList, hlist]
  rfl

theorem parenthesis_mem_sumLabel (e : Expr) : '(' ∈ (sumLabel e).toList := by
  obtain ⟨rest, hrest⟩ := exists_toList_sumLabel e
  rw [hrest]
  exact List.mem_append_left _ (by decide)

theorem sumLabel_ne_text {c : ColumnRef} (hc : c.Simple) (e : Expr) : sumLabel e ≠ c.text := by
  intro h
  exact hc.parenthesis (h ▸ parenthesis_mem_sumLabel e)

/-! ### Column parts -/

theorem columnPart_text {c : ColumnRef} (hc : c.Simple) :
    columnPart? c.text = c.table.map fun _ => c.column := by
  rw [columnPart?, hc.cut_text]
  obtain ⟨_ | t, column⟩ := c
  · rfl
  · simpa using (hc.table t rfl).parenthesis

/-- What stands before the first dot in the label of a sum holds its parenthesis. -/
theorem columnPart_sumLabel (e : Expr) : columnPart? (sumLabel e) = none := by
  rw [columnPart?]
  cases hcut : Text.cutAt? '.' (sumLabel e) with
  | none => rfl
  | some parts =>
    obtain ⟨front, back⟩ := parts
    obtain ⟨hlabel, -⟩ := Text.cutAt_eq_some_iff.mp hcut
    obtain ⟨rest, hrest⟩ := exists_toList_sumLabel e
    have hmem : '(' ∈ front.toList := by
      rcases List.append_eq_append_iff.mp (hrest.symm.trans hlabel) with
        ⟨more, hfront, -⟩ | ⟨more, hname, hback⟩
      · rw [hfront]
        exact List.mem_append_left _ (by decide)
      · -- the dot is not in the name of the function
        cases more with
        | nil =>
          rw [List.append_nil] at hname
          rw [← hname]
          decide
        | cons x more =>
          obtain ⟨rfl, -⟩ := List.cons.inj hback
          have hdot : '.' ∈ ['s', 'u', 'm', '('] := hname ▸ by simp
          exact absurd hdot (by decide)
    simp [hmem]

/-! ### Lists -/

section Lists

variable {α β γ : Type} {xs : List α} {ys : List β} {f : α → γ} {g : β → γ} {p : γ → Bool}

theorem findIdx_congr {q q' : α → Bool} (h : ∀ x ∈ xs, q x = q' x) :
    xs.findIdx? q = xs.findIdx? q' := by
  induction xs with
  | nil => rfl
  | cons x xs ih =>
    obtain ⟨hx, hxs⟩ := List.forall_mem_cons.mp h
    rw [List.findIdx?_cons, List.findIdx?_cons, hx, ih hxs]

theorem findIdx_left {q : α → Bool} (hxs : ∀ x ∈ xs, p (f x) = q x)
    (hys : ∀ y ∈ ys, p (g y) = false) :
    (xs.map f ++ ys.map g).findIdx? p = xs.findIdx? q := by
  have hnone : ys.findIdx? (p ∘ g) = none := List.findIdx?_eq_none_iff.mpr hys
  rw [List.findIdx?_append, List.findIdx?_map, List.findIdx?_map, hnone, Option.map_none,
    Option.or_none]
  exact findIdx_congr hxs

theorem findIdx_right {q : β → Bool} (hxs : ∀ x ∈ xs, p (f x) = false)
    (hys : ∀ y ∈ ys, p (g y) = q y) :
    (xs.map f ++ ys.map g).findIdx? p = (ys.findIdx? q).map (xs.length + ·) := by
  have hnone : xs.findIdx? (p ∘ f) = none := List.findIdx?_eq_none_iff.mpr hxs
  have hsome : ys.findIdx? (p ∘ g) = ys.findIdx? q := findIdx_congr hys
  rw [List.findIdx?_append, List.findIdx?_map, List.findIdx?_map, hnone, hsome, Option.none_or,
    List.length_map]
  simp only [Nat.add_comm]

theorem exists_findIdx_iff {q : α → Prop} [DecidablePred q] :
    (∃ i, xs.findIdx? (fun x => decide (q x)) = some i) ↔ ∃ x ∈ xs, q x := by
  rw [← Option.isSome_iff_exists, List.findIdx?_isSome, List.any_eq_true]
  simp only [decide_eq_true_eq]

theorem exists_findIdx_of_mem [DecidableEq α] {x : α} (h : x ∈ xs) :
    ∃ i, xs.findIdx? (· = x) = some i :=
  exists_findIdx_iff.mpr ⟨x, h, rfl⟩

end Lists

/-! ### What an item means -/

/-- The labels of columns and of the sums after them. -/
def outputLabels (columns : List ColumnRef) (sums : List Expr) : List String :=
  columns.map (·.text) ++ sums.map sumLabel

/-- A grouped plan over columns with simple names has labels of this kind. -/
theorem labels_of_grouped {input p : Plan} {shown groupBy : List ColumnRef}
    {aggregates : List Aggregate} (hshown : ∀ r ∈ shown, r.Simple)
    (h : grouped input shown groupBy aggregates = .ok p) :
    p.labels = outputLabels shown (aggregates.filterMap (·.argument)) := by
  obtain ⟨⟨sums, labels⟩, hsums, h⟩ := bind_eq_ok_iff.mp h
  cases h
  obtain ⟨rfl, rfl⟩ := SelectList.eq_of_sumsOf hsums
  have hsums' : (sums.map fun e : Expr => (⟨.sum, some e⟩ : Aggregate)).filterMap (·.argument) =
      sums := by
    rw [List.filterMap_map]
    exact List.filterMap_some
  rw [hsums', labels, outputLabels, List.map_congr_left fun r hr => (hshown r hr).label_eq_text,
    List.map_map]
  rfl

/-- The key that an ORDER BY item asks for, among columns and the sums after them. -/
inductive Points (columns : List ColumnRef) (sums : List Expr) : OrderItem → OrderKey → Prop
  /-- A column means the first field that is this column, with the same table or without one. -/
  | column {c : ColumnRef} {i : Nat} {up : Bool} (h : columns.findIdx? (· = c) = some i) :
    Points columns sums ⟨.column c, up⟩ ⟨c.text, i, up⟩
  /-- A bare column that is not there means the first column of some table that has its name. -/
  | ofTable {name : String} {i : Nat} {up : Bool} (hnone : { column := name } ∉ columns)
    (h : columns.findIdx? (fun r => r.table ≠ none ∧ r.column = name) = some i) :
    Points columns sums ⟨.column { column := name }, up⟩ ⟨name, i, up⟩
  /-- A sum means the first sum that has its label. -/
  | sum {function : String} {e : Expr} {i : Nat} {up : Bool}
    (hname : Name.canonical function = "sum")
    (h : sums.findIdx? (fun e' => sumLabel e' = sumLabel e) = some i) :
    Points columns sums ⟨.call function [.expr e], up⟩ ⟨sumLabel e, columns.length + i, up⟩

/-- That there is something an ORDER BY expression can mean. -/
inductive Found (columns : List ColumnRef) (sums : List Expr) : Expr → Prop
  | column {c : ColumnRef} (h : c ∈ columns) : Found columns sums (.column c)
  | ofTable {name : String} (h : ∃ r ∈ columns, r.table ≠ none ∧ r.column = name) :
    Found columns sums (.column { column := name })
  | sum {function : String} {e : Expr} (hname : Name.canonical function = "sum")
    (h : ∃ e' ∈ sums, sumLabel e' = sumLabel e) : Found columns sums (.call function [.expr e])

variable {columns : List ColumnRef} {sums : List Expr} {item : OrderItem} {key : OrderKey}

theorem exists_points_iff : (∃ key, Points columns sums item key) ↔
    Found columns sums item.expr := by
  constructor
  · rintro ⟨key, hkey⟩
    cases hkey with
    | column h =>
      obtain ⟨r, hr, rfl⟩ := exists_findIdx_iff.mp ⟨_, h⟩
      exact .column hr
    | ofTable _ h => exact .ofTable (exists_findIdx_iff.mp ⟨_, h⟩)
    | sum hname h => exact .sum hname (exists_findIdx_iff.mp ⟨_, h⟩)
  · obtain ⟨e, up⟩ := item
    intro h
    cases h with
    | column h =>
      obtain ⟨i, hi⟩ := exists_findIdx_of_mem h
      exact ⟨_, .column hi⟩
    | @ofTable name h =>
      by_cases hbare : { column := name } ∈ columns
      · obtain ⟨i, hi⟩ := exists_findIdx_of_mem hbare
        exact ⟨_, .column hi⟩
      · obtain ⟨i, hi⟩ := exists_findIdx_iff.mpr h
        exact ⟨_, .ofTable hbare hi⟩
    | sum hname h =>
      obtain ⟨i, hi⟩ := exists_findIdx_iff.mpr h
      exact ⟨_, .sum hname hi⟩

/-! ### Finding it among labels -/

theorem fieldOf_eq_or (labels : List String) (label : String) : fieldOf? labels label =
    (labels.findIdx? (· == label)).or (labels.findIdx? (columnPart? · == some label)) := by
  have hidx : labels.idxOf? label = labels.findIdx? (· == label) := rfl
  rw [fieldOf?, hidx]
  cases labels.findIdx? (· == label) <;> rfl

/-- The text of a column is found at the column, or else, if it is bare, at a table's column. -/
theorem fieldOf_text (hcolumns : ∀ r ∈ columns, r.Simple) {c : ColumnRef} (hc : c.Simple) :
    fieldOf? (outputLabels columns sums) c.text =
      (columns.findIdx? (· = c)).or (if c.table = none then
        columns.findIdx? (fun r => r.table ≠ none ∧ r.column = c.column) else none) := by
  rw [fieldOf_eq_or, outputLabels]
  congr 1
  · refine findIdx_left (fun r hr => ?_) (fun e _ => ?_)
    · exact decide_eq_decide.mpr (ColumnRef.text_inj (hcolumns r hr) hc)
    · exact beq_eq_false_iff_ne.mpr (sumLabel_ne_text hc e)
  · have hsums : ∀ e ∈ sums, (columnPart? (sumLabel e) == some c.text) = false := fun e _ => by
      rw [columnPart_sumLabel]
      rfl
    split
    case isTrue hbare =>
      refine findIdx_left (fun r hr => ?_) hsums
      have htext : c.text = c.column := by rw [ColumnRef.text, hbare]
      rw [columnPart_text (hcolumns r hr), htext]
      cases r.table <;> simp [beq_eq_decide]
    case isFalse hqualified =>
      have hdot : '.' ∈ c.text.toList := by
        obtain ⟨_ | t, column⟩ := c
        · exact absurd rfl hqualified
        · rw [ColumnRef.toList_text_qualified]
          simp
      refine List.findIdx?_eq_none_iff.mpr (List.forall_mem_append.mpr ⟨?_, ?_⟩)
      · refine List.forall_mem_map.mpr fun r hr => beq_eq_false_iff_ne.mpr fun h => ?_
        rw [columnPart_text (hcolumns r hr)] at h
        obtain ⟨-, -, h⟩ := Option.map_eq_some_iff.mp h
        exact (hcolumns r hr).column.dot (h ▸ hdot)
      · exact List.forall_mem_map.mpr hsums

theorem fieldOf_sumLabel (hcolumns : ∀ r ∈ columns, r.Simple) (e : Expr) :
    fieldOf? (outputLabels columns sums) (sumLabel e) =
      (sums.findIdx? (fun e' => sumLabel e' = sumLabel e)).map (columns.length + ·) := by
  have hparts : (outputLabels columns sums).findIdx? (columnPart? · == some (sumLabel e)) =
      none := by
    refine List.findIdx?_eq_none_iff.mpr (List.forall_mem_append.mpr ⟨?_, ?_⟩)
    · refine List.forall_mem_map.mpr fun r hr => beq_eq_false_iff_ne.mpr fun h => ?_
      rw [columnPart_text (hcolumns r hr)] at h
      obtain ⟨-, -, h⟩ := Option.map_eq_some_iff.mp h
      exact (hcolumns r hr).column.parenthesis (h ▸ parenthesis_mem_sumLabel e)
    · refine List.forall_mem_map.mpr fun e' _ => ?_
      rw [columnPart_sumLabel]
      rfl
  rw [fieldOf_eq_or, hparts, Option.or_none, outputLabels]
  refine findIdx_right (fun r hr => ?_) (fun e' _ => beq_eq_decide _ _)
  exact beq_eq_false_iff_ne.mpr (sumLabel_ne_text (hcolumns r hr) e).symm

theorem orderLabel_sum {function : String} (hname : Name.canonical function = "sum") (e : Expr) :
    orderLabel (.call function [.expr e]) = .ok (sumLabel e) := by
  unfold orderLabel
  exact if_pos hname

theorem orderLabel_eq_ok_iff {e : Expr} {label : String} : orderLabel e = .ok label ↔
    (∃ c, e = .column c ∧ label = c.label) ∨
      ∃ function e', e = .call function [.expr e'] ∧ Name.canonical function = "sum" ∧
        label = sumLabel e' := by
  constructor
  · intro h
    unfold orderLabel at h
    split at h
    case h_1 c =>
      exact .inl ⟨c, rfl, (Except.ok.inj h).symm⟩
    case h_2 function args =>
      split at h
      case isTrue hname =>
        split at h
        case h_1 e' => exact .inr ⟨function, e', rfl, hname, (Except.ok.inj h).symm⟩
        case h_2 => cases h
      case isFalse => cases h
    case h_3 => cases h
  · rintro (⟨c, rfl, rfl⟩ | ⟨function, e', rfl, hname, rfl⟩)
    · rfl
    · exact orderLabel_sum hname e'

theorem orderKey_eq_ok_iff {labels : List String} : orderKey labels item = .ok key ↔
    ∃ label i, orderLabel item.expr = .ok label ∧ fieldOf? labels label = some i ∧
      ⟨label, i, item.ascending⟩ = key := by
  unfold orderKey
  simp only [bind_eq_ok_iff]
  constructor
  · rintro ⟨label, hlabel, h⟩
    split at h
    · exact ⟨label, _, hlabel, ‹_›, Except.ok.inj h⟩
    · cases h
  · rintro ⟨label, i, hlabel, hi, rfl⟩
    refine ⟨label, hlabel, ?_⟩
    rw [hi]
    rfl

theorem orderKey_outputLabels_iff (hcolumns : ∀ r ∈ columns, r.Simple)
    (hitem : ∀ c, item.expr = .column c → c.Simple) :
    orderKey (outputLabels columns sums) item = .ok key ↔ Points columns sums item key := by
  obtain ⟨e, up⟩ := item
  rw [orderKey_eq_ok_iff]
  constructor
  · rintro ⟨label, i, hlabel, hi, rfl⟩
    rcases orderLabel_eq_ok_iff.mp hlabel with ⟨c, rfl, rfl⟩ | ⟨function, e', rfl, hname, rfl⟩
    · have hc := hitem c rfl
      rw [hc.label_eq_text] at hi ⊢
      rw [fieldOf_text hcolumns hc, Option.or_eq_some_iff] at hi
      -- a label as a whole is preferred to the column part of one
      rcases hi with hi | ⟨hnone, hi⟩
      · exact .column hi
      · split at hi
        case isTrue hbare =>
          obtain ⟨_ | t, column⟩ := c
          · refine .ofTable (fun hmem => ?_) hi
            simpa using List.findIdx?_eq_none_iff.mp hnone _ hmem
          · cases hbare
        case isFalse => cases hi
    · rw [fieldOf_sumLabel hcolumns] at hi
      obtain ⟨j, hj, rfl⟩ := Option.map_eq_some_iff.mp hi
      exact .sum hname hj
  · intro h
    cases h with
    | @column c i _ h =>
      have hc := hitem c rfl
      refine ⟨c.text, i, congrArg Except.ok hc.label_eq_text, ?_, rfl⟩
      rw [fieldOf_text hcolumns hc, h]
      rfl
    | @ofTable name i _ hnone h =>
      have hc := hitem _ rfl
      refine ⟨name, i, congrArg Except.ok hc.label_eq_text, ?_, rfl⟩
      have hfirst : columns.findIdx? (· = { column := name }) = none :=
        List.findIdx?_eq_none_iff.mpr fun r hr => decide_eq_false fun hr' => hnone (hr' ▸ hr)
      exact (fieldOf_text hcolumns hc).trans (by rw [hfirst]; exact h)
    | @sum function e i _ hname h =>
      refine ⟨sumLabel e, _, orderLabel_sum hname e, ?_, rfl⟩
      rw [fieldOf_sumLabel hcolumns, h]
      rfl

/-- Among columns with simple names and the sums after them, the keys of ORDER BY items that name
columns simply exist exactly if there is something that each item means, and then they are the keys
that the items point to, one by one. -/
theorem order_keys_meant {items : List OrderItem} (hcolumns : ∀ r ∈ columns, r.Simple)
    (hitems : ∀ item ∈ items, ∀ c, item.expr = .column c → c.Simple) :
    ((∃ keys, orderKeys items (outputLabels columns sums) = .ok keys) ↔
      ∀ item ∈ items, Found columns sums item.expr) ∧
    ∀ keys, orderKeys items (outputLabels columns sums) = .ok keys ↔
      List.Forall₂ (Points columns sums) items keys := by
  have hkey : ∀ item ∈ items, ∀ key, orderKey (outputLabels columns sums) item = .ok key ↔
      Points columns sums item key := fun item hmem key =>
    orderKey_outputLabels_iff hcolumns (hitems item hmem)
  constructor
  · rw [orderKeys, exists_mapM_iff]
    refine forall₂_congr fun item hmem => ?_
    rw [← exists_points_iff]
    exact exists_congr (hkey item hmem)
  · intro keys
    rw [orderKeys, mapM_eq_ok_iff]
    exact forall₂_congr_left hkey

/-- Columns of which the first comes again in a table. -/
def outputColumns : List ColumnRef :=
  [{ column := "age" }, { table := some "marks", column := "mark" },
    { table := some "pupils", column := "age" }]

def twice (table column : String) : Expr :=
  .binary (.column { table := some table, column }) .plus (.column { table := some table, column })

/-- A column of a table by its own name, a column with and without its table, and a sum. -/
def orderItems : List OrderItem :=
  [{ expr := .column { column := "mark" }, ascending := false },
    { expr := .column { column := "age" } },
    { expr := .column { table := some "pupils", column := "age" } },
    { expr := .call "SUM" [.expr (twice "Marks" "Mark")] }]

/-- What these items point to: the column without a table goes before the table's, and the sum is found
by its label. -/
def itemKeys : List OrderKey :=
  [⟨"mark", 1, false⟩, ⟨"age", 0, true⟩, ⟨"pupils.age", 2, true⟩,
    ⟨sumLabel (twice "Marks" "Mark"), 3, true⟩]

theorem forall₂_points_itemKeys :
    List.Forall₂ (Points outputColumns [twice "marks" "mark"]) orderItems itemKeys := by
  have hmark : Points outputColumns [twice "marks" "mark"] orderItems[0] ⟨"mark", 1, false⟩ :=
    .ofTable (by decide) (by decide)
  have hage : Points outputColumns [twice "marks" "mark"] orderItems[1] ⟨"age", 0, true⟩ :=
    .column (by decide)
  have hpupils : Points outputColumns [twice "marks" "mark"] orderItems[2]
      ⟨"pupils.age", 2, true⟩ :=
    .column (by decide)
  have hsum : Points outputColumns [twice "marks" "mark"] orderItems[3]
      ⟨sumLabel (twice "Marks" "Mark"), 3, true⟩ := by
    have hfound : [twice "marks" "mark"].findIdx?
        (fun e => sumLabel e = sumLabel (twice "Marks" "Mark")) = some 0 := by decide +kernel
    have hname : Name.canonical "SUM" = "sum" := by decide
    exact .sum hname hfound
  exact .cons hmark (.cons hage (.cons hpupils (.cons hsum .nil)))

/-- A grouped plan over these columns and the sum is sorted by these keys. -/
theorem order_keys_meant_sample :
    ((∀ r ∈ outputColumns, r.Simple) ∧
      ∀ item ∈ orderItems, ∀ c, item.expr = .column c → c.Simple) ∧
    orderKeys orderItems (outputLabels outputColumns [twice "marks" "mark"]) = .ok itemKeys ∧
    ∀ input, ∃ p,
      grouped input outputColumns [] [{ function := .sum, argument := some (twice "marks" "mark") }] =
        .ok p ∧ ordered orderItems p = .ok (.sort p itemKeys) := by
  have hcolumns : ∀ r ∈ outputColumns, r.Simple := by decide
  have hitems : ∀ item ∈ orderItems, ∀ c, item.expr = .column c → c.Simple := by
    simp only [orderItems, List.forall_mem_cons]
    refine ⟨?_, ?_, ?_, ?_, nofun⟩ <;> rintro c ⟨⟩ <;> decide
  have hkeys := ((order_keys_meant hcolumns hitems).2 _).mpr forall₂_points_itemKeys
  refine ⟨⟨hcolumns, hitems⟩, hkeys, fun input => ?_⟩
  obtain ⟨p, hp⟩ : ∃ p, grouped input outputColumns []
      [{ function := .sum, argument := some (twice "marks" "mark") }] = .ok p := ⟨_, rfl⟩
  refine ⟨p, hp, ?_⟩
  have hlabels : p.labels = outputLabels outputColumns [twice "marks" "mark"] :=
    labels_of_grouped hcolumns hp
  rw [ordered, hlabels]
  exact bind_eq_ok_iff.mpr ⟨itemKeys, hkeys, rfl⟩

end Plan

end FlatQuery
