import FlatQuery.Proofs.Plan.Prepared
import FlatQuery.Proofs.Rows.Rearranged
import Mathlib.Algebra.BigOperators.Group.List.Basic

/-!
# Rows that are read alike

Two lists of rows are read alike (`SameViews`) if the values that references have in the rows of the
one are, in some order, those that they have in the rows of the other; each list has a scope of its
own.  What is selected from rows that are read alike is the same in some order
(`SameStage.perm`), and is the same once it has been sorted (`eq_of_sort`, `perm_of_ordered`).
-/

namespace FlatQuery.Plan

open Rows Outcome

/-- That rows, read in a scope, are in some order those of another list, read in its scope. -/
def SameViews (s : Scope) (rows : List Row) (s' : Scope) (rows' : List Row) : Prop :=
  (rows.map s.value).Perm (rows'.map s'.value)

variable {s s' : Scope} {rows rows' out out' : List Row} {columns keys : List ColumnRef}
  {sums : List Expr}

theorem SameViews.of_perm (s : Scope) (h : rows.Perm rows') : SameViews s rows s rows' :=
  h.map s.value

/-- A row of the one list is read like some row of the other. -/
theorem SameViews.exists_mem (h : SameViews s rows s' rows') {r : Row} (hr : r ∈ rows) :
    ∃ r' ∈ rows', s'.value r' = s.value r :=
  List.mem_map.mp (h.subset (List.mem_map_of_mem hr))

theorem SameViews.eq_nil_iff (h : SameViews s rows s' rows') : rows = [] ↔ rows' = [] := by
  have hlength := List.Perm.length_eq h
  rw [List.length_map, List.length_map] at hlength
  rw [← List.length_eq_zero_iff, ← List.length_eq_zero_iff, hlength]

theorem valuesIn_eq_of_value {r r' : Row} (h : s'.value r' = s.value r)
    (columns : List ColumnRef) : valuesIn s' columns r' = valuesIn s columns r := by
  unfold valuesIn
  rw [h]

/-! ### Restricting -/

theorem SameViews.map_valuesIn (h : SameViews s rows s' rows') (columns : List ColumnRef) :
    (rows.map (valuesIn s columns)).Perm (rows'.map (valuesIn s' columns)) := by
  have hmap := h.map fun view => columns.map view
  rwa [List.map_map, List.map_map] at hmap

theorem injective_map_some : Function.Injective fun o : Row => o.fields.map some := by
  intro a b h
  exact congrArg Row.mk (map_some_inj.mp h)

/-- Rows that show the values of the same references are the same in some order. -/
theorem SameViews.restricted (h : SameViews s rows s' rows') (ho : Restricted s columns rows out)
    (ho' : Restricted s' columns rows' out') : out.Perm out' := by
  have hvalues : ∀ {s : Scope} {rows out : List Row}, Restricted s columns rows out →
      out.map (fun o => o.fields.map some) = rows.map (valuesIn s columns) := by
    intro s rows out ho
    induction ho with
    | nil => rfl
    | cons hr _ ih => exact congrArg₂ List.cons hr ih
  rw [← List.map_perm_map_iff injective_map_some, hvalues ho, hvalues ho']
  exact h.map_valuesIn columns

/-! ### Grouping -/

theorem SameViews.filter (h : SameViews s rows s' rows') (keys : List ColumnRef)
    (key : List (Option String)) :
    SameViews s (rows.filter fun r => valuesIn s keys r = key) s'
      (rows'.filter fun r => valuesIn s' keys r = key) := by
  have hfilter := List.Perm.filter (fun view => keys.map view = key) h
  rwa [List.filter_map, List.filter_map] at hfilter

/-- The total of an expression does not depend on the order of the rows. -/
theorem SameViews.isTotal (h : SameViews s rows s' rows') {e : Expr} {n n' : Int}
    (hn : IsTotal s rows e n) (hn' : IsTotal s' rows' e n') : n = n' := by
  have hamounts : ∀ {s : Scope} {rows : List Row} {ms : List Int},
      List.Forall₂ (fun r m => e.amount (s.value r) = some m) rows ms →
        ms.map some = (rows.map s.value).map e.amount := by
    intro s rows ms hms
    induction hms with
    | nil => rfl
    | cons hm _ ih => exact congrArg₂ List.cons hm.symm ih
  obtain ⟨ms, hms, rfl⟩ := hn
  obtain ⟨ms', hms', rfl⟩ := hn'
  have hperm : (ms.map some).Perm (ms'.map some) := by
    rw [hamounts hms, hamounts hms']
    exact h.map e.amount
  exact ((List.map_perm_map_iff (fun _ _ => Option.some.inj)).mp hperm).sum_eq

/-- A group that is not empty gives one row only, however its members are read. -/
theorem SameViews.isGroupRow (h : SameViews s rows s' rows') (hsome : rows ≠ []) {o o' : Row}
    (ho : IsGroupRow s columns sums rows o) (ho' : IsGroupRow s' columns sums rows' o') :
    o = o' := by
  obtain ⟨shown, totals, hfields, hshown, htotals⟩ := ho
  obtain ⟨shown', totals', hfields', hshown', htotals'⟩ := ho'
  have hshown'' : shown = shown' := by
    obtain ⟨r, hr⟩ := List.exists_mem_of_ne_nil rows hsome
    obtain ⟨r', hr', hvalue⟩ := h.exists_mem hr
    rw [← map_some_inj, hshown r hr, hshown' r' hr', valuesIn_eq_of_value hvalue]
  have htotals'' : totals = totals' := by
    clear hfields hfields'
    induction htotals generalizing totals' with
    | nil =>
      cases htotals'
      rfl
    | cons hn _ ih =>
      cases htotals' with
      | cons hn' hrest => exact congrArg₂ List.cons (h.isTotal hn hn') (ih _ hrest)
  obtain ⟨fields⟩ := o
  obtain ⟨fields'⟩ := o'
  obtain rfl : fields = shown ++ totals.map Integer.toText := hfields
  obtain rfl : fields' = shown' ++ totals'.map Integer.toText := hfields'
  rw [hshown'', htotals'']

/-- Groups of rows that are read alike give the same rows in some order. -/
theorem SameViews.grouping (h : SameViews s rows s' rows')
    (ho : IsGrouping s keys columns sums rows out)
    (ho' : IsGrouping s' keys columns sums rows' out') : out.Perm out' := by
  have hzero : (rows = [] ∧ keys = [] ∧ columns = []) ↔ rows' = [] ∧ keys = [] ∧ columns = [] :=
    and_congr_left fun _ => h.eq_nil_iff
  unfold IsGrouping at ho ho'
  by_cases hempty : rows = [] ∧ keys = [] ∧ columns = []
  · rw [if_pos hempty] at ho
    rw [if_pos (hzero.mp hempty)] at ho'
    rw [ho, ho']
  · rw [if_neg hempty] at ho
    rw [if_neg fun he => hempty (hzero.mpr he)] at ho'
    refine perm_of_forall₂ (eraseDups_perm (h.map_valuesIn keys)) ho ho' ?_
    intro key hkey o o'
    refine (h.filter keys key).isGroupRow ?_
    -- a key belongs to some row
    obtain ⟨r, hr, hvalue⟩ := List.mem_map.mp (List.mem_eraseDups.mp hkey)
    exact List.ne_nil_of_mem (List.mem_filter.mpr ⟨hr, decide_eq_true hvalue⟩)

/-! ### What is selected -/

variable {fs fs' : Files} {p p' m m' : Plan} {ts ts' : List Table}

/-- That two plans select the same from the rows of two others. -/
inductive SameStage (p p' : Plan) : Plan → Plan → Prop
  /-- All fields, if the two others are one. -/
  | keep (h : p = p') : SameStage p p' p p'
  /-- The same columns. -/
  | project (columns : List ColumnRef) : SameStage p p' (.project p columns) (.project p' columns)
  /-- The same of each group. -/
  | groupSum {columns keys : List ColumnRef} (hsub : ∀ c ∈ columns, c ∈ keys) (sums : List Expr)
      (labels : List String) :
      SameStage p p' (.groupSum p keys columns sums labels) (.groupSum p' keys columns sums labels)

/-- What can be selected from one plan can be selected from another over the same tables.  A star
tells plans apart. -/
theorem exists_sameStage {items : List SelectItem} {groupBy : List Expr} {list : SelectList}
    (hlist : SelectList.analyse items groupBy = .ok list) (hstar : list = .star none → p = p')
    (hlength : ts'.length = ts.length) (hone : ts.length = 1 → p = p')
    (hfind : ∀ name, ts'.find? (·.name == name) = ts.find? (·.name == name))
    (hm : selected list ts p = .ok m) :
    ∃ m', selected list ts' p' = .ok m' ∧ SameStage p p' m m' := by
  cases list with
  | star table =>
    cases table with
    | none =>
      cases hm
      exact ⟨p', rfl, .keep (hstar rfl)⟩
    | some name =>
      simp only [selected] at hm
      split at hm
      · cases hm
      · rename_i t ht
        cases hm
        simp only [selected, hfind, ht, hlength]
        refine ⟨_, rfl, ?_⟩
        split
        · exact .keep (hone ‹_›)
        · exact .project (columnsOf t)
  | listed columns keys aggregates =>
    rcases selected_listed_cases columns keys aggregates with
      ⟨e, h⟩ | ⟨sums, labels, -, h⟩ | ⟨-, -, h⟩
    · rw [h] at hm
      cases hm
    · rw [h] at hm
      cases hm
      exact ⟨_, h .., .groupSum (columns_subset_of_analyse hlist) sums labels⟩
    · rw [h] at hm
      cases hm
      exact ⟨_, h .., .project columns⟩

/-- What is selected from rows that are read alike is the same in some order. -/
theorem SameStage.perm (h : SameStage p p' m m')
    (hkeep : p = p' → ∀ rows rows', HandsOut fs p rows → HandsOut fs' p' rows' → rows.Perm rows')
    (hviews : ∀ rows rows', HandsOut fs p rows → HandsOut fs' p' rows' →
      SameViews (.ofTables p.tables) rows (.ofTables p'.tables) rows')
    (ho : HandsOut fs m out) (ho' : HandsOut fs' m' out') : out.Perm out' := by
  cases h with
  | keep h => exact hkeep h out out' ho ho'
  | project columns =>
    obtain ⟨rows, hrows, hout⟩ := ho.project
    obtain ⟨rows', hrows', hout'⟩ := ho'.project
    exact (hviews rows rows' hrows hrows').restricted hout hout'
  | groupSum hsub sums labels =>
    obtain ⟨rows, hrows, hout⟩ := ho.groupSum hsub
    obtain ⟨rows', hrows', hout'⟩ := ho'.groupSum hsub
    exact (hviews rows rows' hrows hrows').grouping hout hout'

theorem perm_of_deduplicated (distinct : Bool)
    (hrows : ∀ rows rows', HandsOut fs m rows → HandsOut fs' m' rows' → rows.Perm rows')
    (ho : HandsOut fs (deduplicated distinct m) out)
    (ho' : HandsOut fs' (deduplicated distinct m') out') : out.Perm out' := by
  obtain ⟨rows, h, rfl⟩ := ho.deduplicated
  obtain ⟨rows', h', rfl⟩ := ho'.deduplicated
  cases distinct with
  | true => exact eraseDups_perm (hrows rows rows' h h')
  | false => exact hrows rows rows' h h'

/-- Rows that are the same in some order are the same once they are sorted. -/
theorem eq_of_sort {ks : List OrderKey}
    (hrows : ∀ rows rows', HandsOut fs m rows → HandsOut fs' m' rows' → rows.Perm rows')
    (ho : HandsOut fs (.sort m ks) out) (ho' : HandsOut fs' (.sort m' ks) out') : out = out' := by
  obtain ⟨rows, h, hsort⟩ := ho.sort
  obtain ⟨rows', h', hsort'⟩ := ho'.sort
  have hsort'' := sortRows_perm (hrows rows rows' h h').symm hsort
  exact Except.ok.inj (hsort''.symm.trans hsort')

theorem perm_of_ordered {items : List OrderItem} (hp : ordered items m = .ok p)
    (hp' : ordered items m' = .ok p') (hlabels : m'.labels = m.labels)
    (hrows : ∀ rows rows', HandsOut fs m rows → HandsOut fs' m' rows' → rows.Perm rows')
    (ho : HandsOut fs p out) (ho' : HandsOut fs' p' out') :
    out.Perm out' ∧ (items ≠ [] → out = out') := by
  rcases ordered_eq_ok_iff.mp hp with ⟨hnil, rfl⟩ | ⟨hne, ks, hks, rfl⟩
  · obtain rfl : p' = m' := (ordered_eq_ok_iff.mp hp').elim And.right fun h => absurd hnil h.1
    exact ⟨hrows out out' ho ho', fun hne => absurd hnil hne⟩
  · rw [ordered_eq_ok_iff.mpr (.inr ⟨hne, ks, hlabels ▸ hks, rfl⟩)] at hp'
    cases hp'
    have hsame := eq_of_sort hrows ho ho'
    exact ⟨.of_eq hsame, fun _ => hsame⟩

end FlatQuery.Plan
