import FlatQuery.Proofs.Plan.Stages
import FlatQuery.Proofs.Rows.Conditions
import FlatQuery.Proofs.Rows.SortOrder
import FlatQuery.Proofs.Rows.SumOrder

/-!
# Sums sort as numbers

Grouping hands its sums to sorting as text, among the other fields of a row.  The text of a sum is
read back as the sum if that is in range (`Integer.ofField_toText_of_fits`), and the sums of groups
are, or grouping had failed (`showsSums_of_grouped`).  So a key that points to a sum has an integer
in every row, which is the exact sum of the group (`ShowsSums.integer`), and sorting by such keys
succeeds and orders the groups by their sums (`sums_sort_as_numbers`).
-/

namespace FlatQuery.Plan

open Rows Outcome

/-! ### Groups and their exact sums -/

/-- The groups of rows, in the order in which their key values are first met.  Without rows, keys and
columns there is a group nevertheless. -/
def groupsOf (s : Scope) (keys columns : List ColumnRef) (rows : List Row) : List (List Row) :=
  if rows = [] ∧ keys = [] ∧ columns = [] then [[]]
  else (rows.map (valuesIn s keys)).eraseDups.map fun key =>
    rows.filter fun r => valuesIn s keys r = key

/-- That a row shows the values of columns in the first row of a group, and after them the texts of
integers that are the exact sums over the group. -/
structure ShowsSums (s : Scope) (columns : List ColumnRef) (sums : List Expr) (members : List Row)
    (o : Row) (totals : List Int) : Prop where
  fields : ∃ shown, o.fields = shown ++ totals.map Integer.toText ∧
    shown.length = columns.length ∧ ∀ r ∈ members.head?, shown.map some = valuesIn s columns r
  summed : List.Forall₂ (IsTotal s members) sums totals

/-- That a row with some totals may stand before another: the first key whose totals differ decides,
in its direction, and the fields if there is none.  Keys count from the first field on, and totals
stand after the columns. -/
def TotalsPrecede (totals : Row → List Int) (columns : Nat) : List OrderKey → Row → Row → Prop
  | [], a, b => FieldsPrecede a.fields b.fields
  | k :: ks, a, b => ∃ m n, (totals a)[k.index - columns]? = some m ∧
      (totals b)[k.index - columns]? = some n ∧
        ((if k.ascending then m < n else n < m) ∨ m = n ∧ TotalsPrecede totals columns ks a b)

def totalsAfter (columns : Nat) (o : Row) : List Int :=
  (o.fields.drop columns).filterMap Integer.ofField?

section Shown

variable {s : Scope} {keys columns : List ColumnRef} {sums : List Expr} {members rows out : List Row}
  {o : Row} {totals : List Int} {spec : GroupSpec}

theorem filterMap_toText (hfits : ∀ n ∈ totals, Integer.fits n = true) :
    (totals.map Integer.toText).filterMap Integer.ofField? = totals := by
  have hread : ∀ n ∈ totals, (Integer.ofField? ∘ Integer.toText) n = some n :=
    fun n hn => Integer.ofField_toText_of_fits (hfits n hn)
  rw [List.filterMap_map, List.filterMap_congr hread, List.filterMap_some]

theorem ShowsSums.totalsAfter (h : ShowsSums s columns sums members o totals)
    (hfits : ∀ n ∈ totals, Integer.fits n = true) : totalsAfter columns.length o = totals := by
  obtain ⟨shown, hfields, hlength, -⟩ := h.fields
  rw [Plan.totalsAfter, hfields, List.drop_left' hlength, filterMap_toText hfits]

/-- A key that points to a total has this total as its integer. -/
theorem ShowsSums.integer (h : ShowsSums s columns sums members o totals)
    (hfits : ∀ n ∈ totals, Integer.fits n = true) {k : OrderKey} (hk : columns.length ≤ k.index) :
    (sortKey k).integer? o = totals[k.index - columns.length]? := by
  obtain ⟨shown, hfields, hlength, -⟩ := h.fields
  have hfield : o.fields[k.index]? =
      totals[k.index - columns.length]?.map Integer.toText := by
    rw [hfields, List.getElem?_append_right (hlength ▸ hk), hlength, List.getElem?_map]
  show o.fields[k.index]?.bind Integer.ofField? = _
  rw [hfield]
  cases hn : totals[k.index - columns.length]? with
  | none => rfl
  | some n => exact Integer.ofField_toText_of_fits (hfits n (List.mem_of_getElem? hn))

/-- The rows of groups show exact sums, and these are in range, as no sum on the way has left it. -/
theorem showsSums_of_grouped (hkeys : keys.mapM s.resolve = .ok spec.group)
    (hshown : columns.mapM s.resolve = .ok spec.shown) (hsums : sums.mapM s.bind = .ok spec.sums)
    (htakes : spec.Takes rows) (h : spec.Grouped rows out) :
    List.Forall₂ (fun members o => ∃ totals, ShowsSums s columns sums members o totals ∧
      ∀ n ∈ totals, Integer.fits n = true) (groupsOf s keys columns rows) out := by
  have hempty : rows = [] ∧ spec.group = [] ∧ spec.shown = [] ↔
      rows = [] ∧ keys = [] ∧ columns = [] := by
    rw [eq_nil_iff_of_mapM hkeys, eq_nil_iff_of_mapM hshown]
  unfold groupsOf
  unfold GroupSpec.Grouped at h
  -- without rows, keys and columns there is one group all the same, whose sums are zero
  by_cases hzero : rows = [] ∧ keys = [] ∧ columns = []
  · rw [if_pos (hempty.mpr hzero)] at h
    rw [if_pos hzero, h]
    refine .cons ⟨spec.zeros, ⟨⟨[], ?_, ?_, nofun⟩, ?_⟩, ?_⟩ .nil
    · rw [GroupSpec.zeros, List.map_replicate, List.map_const', List.nil_append]
    · rw [hzero.2.2]
      rfl
    · exact isTotal_of_isSum hsums (isSum_zeros spec)
    · intro n hn
      rw [List.eq_of_mem_replicate hn]
      rfl
  · rw [if_neg fun he => hzero (hempty.mp he)] at h
    rw [if_neg hzero, List.forall₂_map_left_iff]
    have hvalues : valuesIn s keys = fieldsAt spec.group :=
      funext fun r => valuesIn_of_resolve hkeys r
    rw [hvalues]
    refine h.imp ?_
    rintro key o ⟨first, rest, shown, totals, hmembers, hpick, htotals, hfields⟩
    have hfirst : shown.fields.map some = fieldsAt spec.shown first := fieldsAt_of_pick hpick
    refine ⟨totals, ⟨⟨shown.fields, hfields, ?_, ?_⟩, isTotal_of_isSum hsums htotals⟩, ?_⟩
    · rw [(mapM_eq_ok_iff.mp hshown).length_eq, ← List.length_map some, hfirst, fieldsAt,
        List.length_map]
    · intro r hr
      obtain rfl : r = first := by
        have hhead : (membersOf spec rows key).head? = some r := hr
        rw [hmembers] at hhead
        exact (Option.some.inj hhead).symm
      rw [hfirst, valuesIn_of_resolve hshown]
    · intro n hn
      obtain ⟨t, ht, hsum⟩ := exists_mem_of_forall₂ htotals hn
      exact fits_of_takes htakes ht key rows (List.prefix_refl rows) n hsum

end Shown

/-! ### Stages that succeed -/

section Stages

variable {fs : Files} {p input : Plan} {keys columns : List ColumnRef} {sums : List Expr}
  {labels : List String} {rows out : List Row}

theorem handsOut_of_yield {op : Operator} {s : op.State} (hbound : p.bound = .ok op)
    (hstart : op.start? fs = .ok s) (hyield : op.yield fs = .ofRows (.ok out)) :
    HandsOut fs p out :=
  handsOut_iff.mpr ⟨op, s, hbound, hstart, congrArg Yield.rows hyield,
    congrArg Yield.error hyield⟩

theorem handsOut_sort {ks : List OrderKey} (h : HandsOut fs p rows)
    (hsort : sortRows (ks.map sortKey) rows = .ok out) : HandsOut fs (.sort p ks) out := by
  obtain ⟨op, s, hbound, hstart, rfl, herror⟩ := handsOut_iff.mp h
  have hgathered : gatheredRows (sorting (ks.map sortKey)) (op.yield fs) = .ok out :=
    gatheredRows_sorting.mpr ⟨herror, hsort⟩
  exact handsOut_of_yield (bind_eq_ok_iff.mpr ⟨op, hbound, rfl⟩)
    (bind_eq_ok_iff.mpr ⟨s, hstart, rfl⟩) (congrArg Yield.ofRows hgathered)

theorem handsOut_distinct (h : HandsOut fs p rows) :
    HandsOut fs (.distinct p) rows.eraseDups := by
  obtain ⟨op, s, hbound, hstart, rfl, herror⟩ := handsOut_iff.mp h
  have hgathered : gatheredRows deduplicating (op.yield fs) = .ok (op.yield fs).rows.eraseDups :=
    gatheredRows_deduplicating.mpr ⟨herror, rfl⟩
  exact handsOut_of_yield (bind_eq_ok_iff.mpr ⟨op, hbound, rfl⟩)
    (bind_eq_ok_iff.mpr ⟨s, hstart, rfl⟩) (congrArg Yield.ofRows hgathered)

theorem handsOut_deduplicated (h : HandsOut fs p rows) (distinct : Bool) :
    HandsOut fs (deduplicated distinct p) (if distinct then rows.eraseDups else rows) := by
  cases distinct with
  | true => exact handsOut_distinct h
  | false => exact h

/-- Where grouping succeeds, the rows show the exact sums of the groups, and these are in range. -/
theorem HandsOut.showsSums (h : HandsOut fs (.groupSum input keys columns sums labels) out) :
    ∃ rows, HandsOut fs input rows ∧ List.Forall₂ (fun members o => ∃ totals,
      ShowsSums (.ofTables input.tables) columns sums members o totals ∧
        ∀ n ∈ totals, Integer.fits n = true)
      (groupsOf (.ofTables input.tables) keys columns rows) out := by
  obtain ⟨rows, spec, hrows, hkeys, hshown, hsums, hgathered⟩ := h.gathered
  refine ⟨rows, hrows, ?_⟩
  rcases gatheredRows_grouping_cases spec rows with ⟨out', hout', hgrouped, htakes⟩ |
    ⟨e, before, row, after, hfails, -⟩
  · obtain rfl := Except.ok.inj (hgathered.symm.trans hout')
    exact showsSums_of_grouped hkeys hshown hsums htakes hgrouped
  · cases hgathered.symm.trans hfails

end Stages

/-! ### Keys that point to sums -/

/-- Rows are in the order of their totals if these are the integers of the keys. -/
theorem totalsPrecede_of_precedes {totals : Row → List Int} {columns : Nat} {ks : List OrderKey}
    {a b : Row} (ha : ∀ k ∈ ks, (sortKey k).integer? a = (totals a)[k.index - columns]?)
    (hb : ∀ k ∈ ks, (sortKey k).integer? b = (totals b)[k.index - columns]?)
    (h : Precedes (ks.map sortKey) a b) : TotalsPrecede totals columns ks a b := by
  induction ks with
  | nil => exact h
  | cons k ks ih =>
    obtain ⟨hka, ha⟩ := List.forall_mem_cons.mp ha
    obtain ⟨hkb, hb⟩ := List.forall_mem_cons.mp hb
    obtain ⟨m, n, hm, hn, hdecide⟩ := h
    exact ⟨m, n, hka ▸ hm, hkb ▸ hn, hdecide.imp_right fun hrest => ⟨hrest.1, ih ha hb hrest.2⟩⟩

/-- Keys that point to sums have integers in the rows of groups, and these are the totals. -/
theorem integer_of_showsSums {s : Scope} {columns : List ColumnRef} {sums : List Expr}
    {members : List (List Row)} {groups : List Row} {k : OrderKey} {o : Row}
    (hshows : List.Forall₂ (fun members o => ∃ totals, ShowsSums s columns sums members o totals ∧
      ∀ n ∈ totals, Integer.fits n = true) members groups)
    (hk : columns.length ≤ k.index ∧ k.index < columns.length + sums.length) (ho : o ∈ groups) :
    (sortKey k).integer? o = (totalsAfter columns.length o)[k.index - columns.length]? ∧
      (sortKey k).integer? o ≠ none := by
  obtain ⟨_, -, totals, hshow, hfits⟩ := exists_mem_of_forall₂ hshows ho
  have hlength : sums.length = totals.length := hshow.summed.length_eq
  rw [hshow.totalsAfter hfits, hshow.integer hfits hk.1]
  refine ⟨rfl, ?_⟩
  rw [Ne, List.getElem?_eq_none_iff]
  omega

/-- **Sums sort as numbers.**  A field is read as an integer exactly if it is a numeral in range that
blanks may surround.  What a group writes for a sum in range is read as that sum.  So let grouping
succeed, whatever the data, and let all keys of ORDER BY point to sums.  Then sorting, with or without
dropping repeated rows before, succeeds too: the rows show the exact sums of the groups, and come out
in the order of these sums. -/
theorem sums_sort_as_numbers :
    (∀ s n, Row.integer s = .ok n ↔ (-2 ^ 63 ≤ n ∧ n < 2 ^ 63) ∧ ∃ front cs back,
      (∀ c ∈ front, Text.isBlank c = true) ∧ (∀ c ∈ back, Text.isBlank c = true) ∧
        s.toList = front ++ cs ++ back ∧ Integer.Numeral cs n) ∧
    (∀ (g : Group) j n, g.sums[j]? = some n → -2 ^ 63 ≤ n ∧ n < 2 ^ 63 →
      ∃ field, g.toRow.fields[g.shown.length + j]? = some field ∧ Row.integer field = .ok n) ∧
    ∀ fs input keys columns sums labels distinct ks groups,
      HandsOut fs (.groupSum input keys columns sums labels) groups →
      (∀ k ∈ ks, columns.length ≤ k.index ∧ k.index < columns.length + sums.length) →
      ∃ (source : List Row) (totals : Row → List Int) (out : List Row), HandsOut fs input source ∧
        List.Forall₂ (fun members o =>
            ShowsSums (.ofTables input.tables) columns sums members o (totals o))
          (groupsOf (.ofTables input.tables) keys columns source) groups ∧
        HandsOut fs (.sort (deduplicated distinct (.groupSum input keys columns sums labels)) ks)
          out ∧
        out.Perm (if distinct then groups.eraseDups else groups) ∧
        out.Pairwise (TotalsPrecede totals columns.length ks) := by
  refine ⟨?_, ?_, ?_⟩
  · intro s n
    rw [Row.integer_eq_ok_iff, Integer.ofField_eq_some_iff, Integer.fits_iff_pow]
  · intro g j n hn hfits
    refine ⟨Integer.toText n, ?_, ?_⟩
    · rw [Group.toRow, List.getElem?_append_right (Nat.le_add_right _ j), Nat.add_sub_cancel_left,
        List.getElem?_map, hn]
      rfl
    · exact Row.integer_eq_ok_iff.mpr
        (Integer.ofField_toText_of_fits (Integer.fits_iff_pow.mpr hfits))
  · intro fs input keys columns sums labels distinct ks groups hgroups hkeys
    obtain ⟨source, hsource, hshows⟩ := hgroups.showsSums
    have hintegers := fun o (ho : o ∈ groups) k (hk : k ∈ ks) =>
      integer_of_showsSums hshows (hkeys k hk) ho
    -- dropping repeated rows leaves rows of groups, so their sums are still numerals in range
    have hsubset : ∀ o ∈ (if distinct then groups.eraseDups else groups), o ∈ groups := by
      cases distinct with
      | true => exact fun o ho => List.mem_eraseDups.mp ho
      | false => exact fun o ho => ho
    have hsortable : ∀ o ∈ (if distinct then groups.eraseDups else groups),
        ∀ k ∈ ks.map sortKey, k.integer? o ≠ none := by
      intro o ho
      exact List.forall_mem_map.mpr fun k hk => (hintegers o (hsubset o ho) k hk).2
    obtain ⟨out, hout⟩ := exists_sortRows_iff.mpr hsortable
    obtain ⟨hperm, hordered⟩ := perm_and_pairwise_of_sortRows hout
    refine ⟨source, totalsAfter columns.length, out, hsource, ?_,
      handsOut_sort (handsOut_deduplicated hgroups distinct) hout, hperm, ?_⟩
    · refine hshows.imp ?_
      rintro members o ⟨totals, hshow, hfits⟩
      rwa [hshow.totalsAfter hfits]
    · refine hordered.imp_of_mem ?_
      intro a b ha hb hab
      have ha' := hsubset a (hperm.subset ha)
      have hb' := hsubset b (hperm.subset hb)
      exact totalsPrecede_of_precedes (fun k hk => (hintegers a ha' k hk).1)
        (fun k hk => (hintegers b hb' k hk).1) (precedes_of_inOrder hab)

/-- Marks of two pupils, whose sums 10 and 9 are in another order as texts. -/
def unevenFiles : Files := Sample.filesWith "" "1,5\n2,9\n1,5\n"

def markSums : Plan :=
  .groupSum (.scan Sample.marks) [{ column := "pupil" }] [{ column := "pupil" }]
    [.column { column := "mark" }] ["sum(mark)"]

def markSumKey : OrderKey where
  label := "sum(mark)"
  index := 1
  ascending := true

/-- The sums of marks in order, and the least sum there can be. -/
theorem sums_sort_as_numbers_sample :
    (HandsOut unevenFiles markSums [⟨["1", "10"]⟩, ⟨["2", "9"]⟩] ∧
      1 ≤ markSumKey.index ∧ markSumKey.index < 1 + 1) ∧
    (∃ field, (Group.toRow ⟨["1"], ["1"], [-2 ^ 63]⟩).fields[1]? = some field ∧
      Row.integer field = .ok (-2 ^ 63)) ∧
    HandsOut unevenFiles (.sort markSums [markSumKey]) [⟨["2", "9"]⟩, ⟨["1", "10"]⟩] ∧
    ∃ totals : Row → List Int,
      [(⟨["2", "9"]⟩ : Row), ⟨["1", "10"]⟩].Pairwise (TotalsPrecede totals 1 [markSumKey]) := by
  have hgroups : HandsOut unevenFiles markSums [⟨["1", "10"]⟩, ⟨["2", "9"]⟩] :=
    handsOut_iff.mpr ⟨_, _, rfl, rfl, by decide, by decide⟩
  have hkey : 1 ≤ markSumKey.index ∧ markSumKey.index < 1 + 1 := by decide
  obtain ⟨-, hread, hsort⟩ := sums_sort_as_numbers
  obtain ⟨-, totals, out, -, -, hout, hperm, hordered⟩ :=
    hsort unevenFiles _ _ _ _ _ false [markSumKey] _ hgroups (List.forall_mem_singleton.mpr hkey)
  -- there is one order only
  obtain rfl : out = [⟨["2", "9"]⟩, ⟨["1", "10"]⟩] := by
    obtain ⟨rows, -, hrows⟩ := hout.sort
    have hprecedes := (perm_and_pairwise_of_sortRows hrows).2.imp precedes_of_inOrder
    exact eq_of_perm_of_pairwise (hperm.trans (by decide)) hprecedes (by decide +kernel)
  exact ⟨⟨hgroups, hkey⟩, hread ⟨["1"], ["1"], [-2 ^ 63]⟩ 0 (-2 ^ 63) rfl (by decide), hout,
    totals, hordered⟩

end FlatQuery.Plan
