import FlatQuery.Proofs.Name
import FlatQuery.Proofs.Outcome
import FlatQuery.Proofs.Query.Truth
import FlatQuery.Query.Select

/-!
# The case of names

A query with the capitals of its names made small (`Select.lowered`) has the same canonical names as
before (`Name.canonical_lowered`), so its columns mean the same fields (`Scope.resolve_lowered`) and
carry the same labels.  Only what quotes a name as it was written tells the two apart, and that
agrees once its capitals are made small as well (`Expr.text_lowered`).
-/

namespace FlatQuery.Text

/-! ### Capitals of ASCII -/

def capitals : List Char := "ABCDEFGHIJKLMNOPQRSTUVWXYZ".toList

theorem mem_capitals : ∀ n : Fin 26, Char.ofNat (65 + n) ∈ capitals := by decide

theorem toLower_eq_or_mem (c : Char) : c.toLower = c ∨ c ∈ capitals := by
  by_cases h : c.val ≥ 'A'.val ∧ c.val ≤ 'Z'.val
  · have hfirst : 65 ≤ c.toNat := h.1
    have hlast : c.toNat ≤ 90 := h.2
    have hmem := mem_capitals ⟨c.toNat - 65, by omega⟩
    simp only [Nat.add_sub_cancel' hfirst, Char.ofNat_toNat] at hmem
    exact .inr hmem
  · exact .inl (dif_neg h)

/-- A small letter is small, is blank, has case and is ignorable as its capital, and has the same
lower case. -/
theorem capitals_spec : (capitals.all fun c => c.toLower.toLower == c.toLower &&
    isBlank c.toLower == isBlank c &&
    caseIgnorableRanges.holds c.toLower.toNat == caseIgnorableRanges.holds c.toNat &&
    casedRanges.holds c.toLower.toNat == casedRanges.holds c.toNat &&
    lowerChar c.toLower == lowerChar c && c != 'İ' && c != 'Σ' && c.toLower != 'İ' &&
    c.toLower != 'Σ') = true := by
  decide +kernel

/-- What a capital and its small letter have in common. -/
structure Cognate (c : Char) : Prop where
  small : c.toLower.toLower = c.toLower
  blank : isBlank c.toLower = isBlank c
  ignorable : caseIgnorableRanges.holds c.toLower.toNat = caseIgnorableRanges.holds c.toNat
  cased : casedRanges.holds c.toLower.toNat = casedRanges.holds c.toNat
  lower : lowerChar c.toLower = lowerChar c
  dotted : c.toLower = 'İ' ↔ c = 'İ'
  sigma : c.toLower = 'Σ' ↔ c = 'Σ'

theorem cognate (c : Char) : Cognate c := by
  rcases toLower_eq_or_mem c with h | h
  · exact ⟨by rw [h, h], by rw [h], by rw [h], by rw [h], by rw [h], by rw [h], by rw [h]⟩
  · have hspec := List.all_eq_true.mp capitals_spec c h
    simp only [Bool.and_eq_true, beq_iff_eq, bne_iff_ne] at hspec
    obtain ⟨⟨⟨⟨⟨⟨⟨⟨small, blank⟩, ignorable⟩, cased⟩, lower⟩, hI⟩, hS⟩, hi⟩, hs⟩ := hspec
    exact ⟨small, blank, ignorable, cased, lower, iff_of_false hi hI, iff_of_false hs hS⟩

theorem toLower_of_isLower {c : Char} (h : IsLower c) : c.toLower = c := by
  have hcapitals : (capitals.all fun c => lowerChar c != c) = true := by decide +kernel
  rcases toLower_eq_or_mem c with hc | hc
  · exact hc
  · exact absurd h.2.2 (by simpa using List.all_eq_true.mp hcapitals c hc)

theorem dropWhile_map_toLower {p : Char → Bool} (hp : ∀ c : Char, p c.toLower = p c)
    (cs : List Char) : (cs.map Char.toLower).dropWhile p = (cs.dropWhile p).map Char.toLower := by
  rw [List.dropWhile_map]
  exact congrArg (fun p => (cs.dropWhile p).map Char.toLower) (funext hp)

theorem startsCased_map_toLower (cs : List Char) :
    startsCased (cs.map Char.toLower) = startsCased cs := by
  unfold startsCased
  rw [dropWhile_map_toLower fun c => (cognate c).ignorable]
  cases cs.dropWhile fun c => caseIgnorableRanges.holds c.toNat with
  | nil => rfl
  | cons c rest => exact (cognate c).cased

theorem lowerIn_map_toLower (before : List Char) (c : Char) (after : List Char) :
    lowerIn (before.map Char.toLower) c.toLower (after.map Char.toLower) =
      lowerIn before c after := by
  unfold lowerIn isFinalSigma
  rw [startsCased_map_toLower, startsCased_map_toLower, (cognate c).lower]
  by_cases hI : c = 'İ'
  · rw [if_pos hI, if_pos ((cognate c).dotted.mpr hI)]
  · rw [if_neg hI, if_neg (mt (cognate c).dotted.mp hI)]
    by_cases hS : c = 'Σ'
    · rw [if_pos hS, if_pos ((cognate c).sigma.mpr hS)]
    · rw [if_neg hS, if_neg (mt (cognate c).sigma.mp hS)]

theorem lowerAfter_map_toLower (before cs : List Char) :
    lowerAfter (before.map Char.toLower) (cs.map Char.toLower) = lowerAfter before cs := by
  induction cs generalizing before with
  | nil => rfl
  | cons c rest ih =>
    rw [List.map_cons, lowerAfter, lowerAfter, lowerIn_map_toLower]
    exact congrArg (lowerIn before c rest ++ ·) (ih (c :: before))

theorem trimChars_map_toLower (cs : List Char) :
    trimChars (cs.map Char.toLower) = (trimChars cs).map Char.toLower := by
  have hblank : ∀ c : Char, isBlank c.toLower = isBlank c := fun c => (cognate c).blank
  simp only [trimChars, dropEndWhile_eq_rdropWhile, List.rdropWhile,
    dropWhile_map_toLower hblank, ← List.map_reverse]

end FlatQuery.Text

namespace FlatQuery

/-! ### Names -/

namespace Name

/-- The name with its capitals made small, as far as they are ASCII. -/
def lowered (name : String) : String :=
  String.ofList (name.toList.map Char.toLower)

theorem lowered_append (s t : String) : lowered (s ++ t) = lowered s ++ lowered t := by
  simp only [lowered, String.toList_append, List.map_append, String.ofList_append]

@[simp] theorem lowered_lowered (s : String) : lowered (lowered s) = lowered s := by
  unfold lowered
  rw [String.toList_ofList, List.map_map]
  exact congrArg String.ofList (List.map_congr_left fun c _ => (Text.cognate c).small)

theorem trim_lowered (s : String) : Text.trim (lowered s) = lowered (Text.trim s) := by
  simp only [Text.trim, lowered, String.toList_ofList, Text.trimChars_map_toLower]

theorem isEmpty_lowered (s : String) : (lowered s).isEmpty = s.isEmpty := by
  have hnil : ∀ t : String, t.isEmpty = t.toList.isEmpty := fun t => by
    rw [Bool.eq_iff_iff, String.isEmpty_iff, List.isEmpty_iff, String.toList_eq_nil_iff]
  rw [hnil, hnil, lowered, String.toList_ofList, List.isEmpty_map]

/-- **Capitals do not matter to names.** -/
@[simp] theorem canonical_lowered (s : String) : canonical (lowered s) = canonical s := by
  rw [canonical, trim_lowered, canonical, lowered, Text.lowercase, Text.lowercase,
    String.toList_ofList]
  exact congrArg String.ofList (Text.lowerAfter_map_toLower [] _)

@[simp] theorem lowered_canonical (s : String) : lowered (canonical s) = canonical s := by
  rw [lowered, canonical, Text.lowercase, String.toList_ofList]
  refine congrArg String.ofList ((List.map_congr_left fun c hc => ?_).trans (List.map_id _))
  exact Text.toLower_of_isLower (Text.isLower_of_mem_lowerAfter hc)

theorem canonical_eq_of_lowered {s t : String} (h : lowered s = lowered t) :
    canonical s = canonical t := by
  rw [← canonical_lowered s, h, canonical_lowered]

end Name

/-! ### Columns -/

namespace ColumnRef

/-- The reference with the capitals of its names made small. -/
def lowered (c : ColumnRef) : ColumnRef where
  table := c.table.map Name.lowered
  column := Name.lowered c.column

theorem text_lowered (c : ColumnRef) : c.lowered.text = Name.lowered c.text := by
  obtain ⟨_ | t, column⟩ := c
  · rfl
  · have hdot : Name.lowered "." = "." := by decide
    simp only [text, lowered, Option.map_some, Name.lowered_append, hdot]

@[simp] theorem canonical_lowered (c : ColumnRef) : c.lowered.canonical = c.canonical := by
  obtain ⟨_ | t, column⟩ := c
  · simp only [canonical, lowered, Option.map_none, Name.canonical_lowered]
  · simp only [canonical, lowered, Option.map_some, Name.canonical_lowered]

@[simp] theorem label_lowered (c : ColumnRef) : c.lowered.label = c.label := by
  rw [label, text_lowered, Name.canonical_lowered]
  rfl

theorem qualifier_lowered (c : ColumnRef) :
    c.lowered.qualifier? = c.qualifier?.map Name.lowered := by
  obtain ⟨_ | t, column⟩ := c
  · rfl
  · simp only [qualifier?, lowered, Option.map_some, Name.trim_lowered, Option.filter_some,
      Name.isEmpty_lowered]
    split
    · rfl
    · rfl

theorem canonical_qualifier_lowered (c : ColumnRef) :
    c.lowered.qualifier?.map Name.canonical = c.qualifier?.map Name.canonical := by
  rw [qualifier_lowered, Option.map_map]
  exact congrArg (c.qualifier?.map ·) (funext Name.canonical_lowered)

theorem shown_lowered (c : ColumnRef) : c.lowered.shown = c.shown := by
  unfold shown
  rw [qualifier_lowered]
  cases c.qualifier? with
  | none => exact Name.canonical_lowered c.column
  | some t =>
    simp only [Option.map_some, lowered, Name.canonical_lowered]

end ColumnRef

namespace Scope

/-- A reference means the same field however it is spelled, or is refused in the same words. -/
@[simp] theorem resolve_lowered (s : Scope) (c : ColumnRef) :
    s.resolve c.lowered = s.resolve c := by
  have hcolumn : Name.canonical c.lowered.column = Name.canonical c.column :=
    Name.canonical_lowered c.column
  simp only [resolve, ColumnRef.canonical_qualifier_lowered, ColumnRef.shown_lowered, hcolumn]

/-- A reference in full has no capitals, because the tables of a scope have none. -/
theorem lowered_of_owner {ts : List ScopeTable} {i : Nat} {q : ColumnRef}
    (hts : ∀ t ∈ ts, Name.lowered t.name = t.name ∧ ∀ c ∈ t.columns, Name.lowered c = c)
    (h : owner? ts i = some q) : q.lowered = q := by
  induction ts generalizing i with
  | nil => cases h
  | cons t ts ih =>
    obtain ⟨⟨hname, hcolumns⟩, hts⟩ := List.forall_mem_cons.mp hts
    rw [owner?] at h
    split at h
    · rename_i column hcolumn
      cases h
      simp only [ColumnRef.lowered, Option.map_some, hname,
        hcolumns column (List.mem_of_getElem? hcolumn)]
    · exact ih hts h

theorem lowered_of_qualify {ts : List Table} {c q : ColumnRef}
    (h : (ofTables ts).qualify c = .ok q) : q.lowered = q := by
  obtain ⟨i, -, h⟩ := Outcome.bind_eq_ok_iff.mp h
  split at h
  · rename_i q' howner
    cases h
    refine lowered_of_owner (fun t ht => ?_) howner
    obtain ⟨u, -, rfl⟩ := List.mem_map.mp ht
    refine ⟨Name.lowered_canonical _, fun column hcolumn => ?_⟩
    obtain ⟨name, -, rfl⟩ := List.mem_map.mp hcolumn
    exact Name.lowered_canonical name
  · cases h

@[simp] theorem qualify_lowered (s : Scope) (c : ColumnRef) :
    s.qualify c.lowered = s.qualify c := by
  unfold qualify
  rw [resolve_lowered]

end Scope

/-! ### Expressions -/

namespace Expr

mutual

/-- The expression with the capitals of its names made small; strings stay as they are. -/
def lowered : Expr → Expr
  | column c => column c.lowered
  | literal v => literal v
  | binary l op r => binary l.lowered op r.lowered
  | call name args => call (Name.lowered name) (loweredArguments args)
  | nested e => nested e.lowered

/-- The arguments with the capitals of their names made small. -/
def loweredArguments : List Argument → List Argument
  | [] => []
  | a :: rest => loweredArgument a :: loweredArguments rest

/-- The argument with the capitals of its names made small. -/
def loweredArgument : Argument → Argument
  | .expr e => .expr e.lowered
  | .star => .star

end

mutual

theorem text_lowered (e : Expr) : Name.lowered e.lowered.text = Name.lowered e.text := by
  cases e with
  | column c =>
    show Name.lowered c.lowered.text = Name.lowered c.text
    rw [ColumnRef.text_lowered, Name.lowered_lowered]
  | literal v => rfl
  | binary l op r =>
    simp only [lowered, text, Name.lowered_append, text_lowered l, text_lowered r]
  | call name args =>
    simp only [lowered, text, Name.lowered_append, Name.lowered_lowered, argumentsText_lowered args]
  | nested e => simp only [lowered, text, Name.lowered_append, text_lowered e]

theorem argumentsText_lowered (args : List Argument) :
    Name.lowered (argumentsText (loweredArguments args)) = Name.lowered (argumentsText args) := by
  match args with
  | [] => rfl
  | [a] => exact argumentText_lowered a
  | a :: b :: rest =>
    have hrest := argumentsText_lowered (b :: rest)
    simp only [loweredArguments] at hrest
    simp only [loweredArguments, argumentsText, Name.lowered_append, argumentText_lowered a, hrest]

theorem argumentText_lowered (a : Argument) :
    Name.lowered (argumentText (loweredArgument a)) = Name.lowered (argumentText a) := by
  cases a with
  | expr e => exact text_lowered e
  | star => rfl

end

mutual

theorem columns_lowered (e : Expr) : e.lowered.columns = e.columns.map (·.lowered) := by
  cases e with
  | column c => rfl
  | literal v => rfl
  | binary l op r =>
    simp only [lowered, columns, List.map_append, columns_lowered l, columns_lowered r]
  | call name args => simp only [lowered, columns, argumentsColumns_lowered args]
  | nested e => simp only [lowered, columns, columns_lowered e]

theorem argumentsColumns_lowered (args : List Argument) :
    argumentsColumns (loweredArguments args) = (argumentsColumns args).map (·.lowered) := by
  match args with
  | [] => rfl
  | a :: rest =>
    simp only [loweredArguments, argumentsColumns, List.map_append, argumentColumns_lowered a,
      argumentsColumns_lowered rest]

theorem argumentColumns_lowered (a : Argument) :
    argumentColumns (loweredArgument a) = (argumentColumns a).map (·.lowered) := by
  cases a with
  | expr e => exact columns_lowered e
  | star => rfl

end

@[simp] theorem tables_lowered (e : Expr) : e.lowered.tables = e.tables := by
  have htable : ∀ c : ColumnRef, c.lowered.table.map Name.canonical = c.table.map Name.canonical :=
    fun c => congrArg ColumnRef.table c.canonical_lowered
  unfold tables
  rw [columns_lowered, List.filterMap_map]
  exact congrArg (fun f => Name.sorted (e.columns.filterMap f)) (funext htable)

theorem conjuncts_lowered (e : Expr) : e.lowered.conjuncts = e.conjuncts.map (·.lowered) := by
  induction e using shallow with
  | column c => rfl
  | literal v => rfl
  | binary l op r ihl ihr =>
    cases op with
    | and => simp only [lowered, conjuncts, List.map_append, ihl, ihr]
    | _ => rfl
  | nested e ih => rfl
  | call name args => rfl

theorem conjunction_lowered (es : List Expr) :
    conjunction? (es.map (·.lowered)) = (conjunction? es).map (·.lowered) := by
  cases es with
  | nil => rfl
  | cons e es =>
    have hfold : ∀ acc : Expr, (es.map (·.lowered)).foldl (fun acc next => binary acc .and next)
        acc.lowered = (es.foldl (fun acc next => binary acc .and next) acc).lowered := by
      induction es with
      | nil => exact fun acc => rfl
      | cons e' es ih => exact fun acc => ih (.binary acc .and e')
    exact congrArg some (hfold e)

end Expr

/-! ### Queries -/

/-- The item with the capitals of its names made small. -/
def SelectItem.lowered : SelectItem → SelectItem
  | star => star
  | tableStar table => tableStar (Name.lowered table)
  | expr e => expr e.lowered

/-- The source with the capitals of its name made small. -/
def Source.lowered : Source → Source
  | table name => table (Name.lowered name)
  | other text => other (Name.lowered text)

/-- The item with the capitals of its names made small. -/
def OrderItem.lowered (item : OrderItem) : OrderItem :=
  { item with expr := item.expr.lowered }

/-- The query with the capitals of all its names made small.  Two queries differ only in the case of
their names if this makes them equal. -/
def Select.lowered (q : Select) : Select where
  distinct := q.distinct
  items := q.items.map (·.lowered)
  sources := q.sources.map (·.lowered)
  condition := q.condition.map (·.lowered)
  groupBy := q.groupBy.map (·.lowered)
  orderBy := q.orderBy.map (·.lowered)

end FlatQuery
