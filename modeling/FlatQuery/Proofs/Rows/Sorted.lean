import FlatQuery.Proofs.Query.Truth
import FlatQuery.Proofs.Rows.Machines
import FlatQuery.Rows.Sort
import FlatQuery.Rows.Distinct
import Mathlib.Data.List.Forall2

/-!
# Sorting and dropping repeated rows

What the two gathering machines that rearrange their input make of it.  Sorting gives the same rows,
each of which may stand before those after it (`InOrder`); dropping repeated rows keeps the first of
equal ones, in the order in which they came.
-/

namespace FlatQuery.Rows

open Outcome

/-! ### Gathering -/

theorem gatheredRows_eq_ok_iff {g : Gathering} {y : Yield} {out : List Row} :
    gatheredRows g y = .ok out ↔ y.error = none ∧
      ∃ acc, y.rows.foldlM g.step g.start = .ok acc ∧ g.finish acc = .ok out := by
  unfold gatheredRows Yield.fold
  cases y.error with
  | none => simp [bind_eq_ok_iff]
  | some e => simp [bind_eq_ok_iff]

theorem gatheredRows_ofList (g : Gathering) (rows : List Row) :
    gatheredRows g (.ofList rows) = rows.foldlM g.step g.start >>= g.finish := by
  unfold gatheredRows Yield.fold Yield.ofList
  cases rows.foldlM g.step g.start with
  | error e => rfl
  | ok acc => rfl

theorem gatheredRows_rows {g : Gathering} {y : Yield} {out : List Row}
    (h : gatheredRows g y = .ok out) :
    y.error = none ∧ gatheredRows g (.ofList y.rows) = .ok out := by
  obtain ⟨rows, e⟩ := y
  obtain rfl : e = none := (gatheredRows_eq_ok_iff.mp h).1
  exact ⟨rfl, h⟩

theorem foldlM_ok {α ε : Type} (f : α → Row → α) (acc : α) (rows : List Row) :
    rows.foldlM (fun a r => (.ok (f a r) : Except ε α)) acc = .ok (rows.foldl f acc) := by
  induction rows generalizing acc with
  | nil => rfl
  | cons row rows ih => exact ih (f acc row)

/-! ### Repeated rows -/

theorem reverse_foldl_addNew (seen rows : List Row) :
    (rows.foldl addNew seen).reverse = List.eraseDupsBy.loop (· == ·) rows seen := by
  induction rows generalizing seen with
  | nil => rfl
  | cons row rows ih =>
    rw [List.foldl_cons, ih, List.eraseDupsBy.loop, addNew]
    by_cases h : row ∈ seen
    · rw [if_pos h, List.any_beq.trans (List.elem_eq_true_of_mem h)]
    · have hany : seen.any (row == ·) = false := List.any_beq.trans (by simpa using h)
      rw [if_neg h, hany]

theorem gatheredRows_deduplicating {y : Yield} {out : List Row} :
    gatheredRows deduplicating y = .ok out ↔ y.error = none ∧ out = y.rows.eraseDups := by
  have hfold : y.rows.foldlM deduplicating.step deduplicating.start =
      .ok (y.rows.foldl addNew []) := foldlM_ok addNew [] y.rows
  have hfinish : deduplicating.finish (y.rows.foldl addNew []) = .ok y.rows.eraseDups :=
    congrArg Except.ok (reverse_foldl_addNew [] y.rows)
  rw [gatheredRows_eq_ok_iff, hfold]
  refine and_congr_right fun _ => ⟨?_, ?_⟩
  · rintro ⟨acc, hacc, hout⟩
    cases hacc
    exact Except.ok.inj (hout.symm.trans hfinish)
  · rintro rfl
    exact ⟨_, rfl, hfinish⟩

/-! ### Order -/

theorem foldlM_sorting (ks : List SortKey) (rows : List Row) :
    rows.foldlM (sorting ks).step (sorting ks).start = .ok rows.reverse := by
  refine (foldlM_ok (fun seen row => row :: seen) [] rows).trans (congrArg Except.ok ?_)
  rw [List.foldl_flip_cons_eq_append', List.append_nil]

theorem finish_sorting (ks : List SortKey) (rows : List Row) :
    (sorting ks).finish rows.reverse = sortRows ks rows :=
  congrArg (sortRows ks) (List.reverse_reverse rows)

theorem gatheredRows_sorting {ks : List SortKey} {y : Yield} {out : List Row} :
    gatheredRows (sorting ks) y = .ok out ↔ y.error = none ∧ sortRows ks y.rows = .ok out := by
  have hfinish := finish_sorting ks y.rows
  rw [gatheredRows_eq_ok_iff, foldlM_sorting]
  refine and_congr_right fun _ => ⟨?_, fun h => ⟨_, rfl, hfinish.trans h⟩⟩
  rintro ⟨acc, hacc, hout⟩
  cases hacc
  exact hfinish.symm.trans hout

theorem gatheredRows_sorting_ofList (ks : List SortKey) (rows : List Row) :
    gatheredRows (sorting ks) (.ofList rows) = sortRows ks rows := by
  rw [gatheredRows_ofList, foldlM_sorting]
  exact finish_sorting ks rows

/-- The integer that a key looks at. -/
def SortKey.integer? (k : SortKey) (r : Row) : Option Int :=
  r.fields[k.index]?.bind Integer.ofField?

/-- That a row may stand before another.  The first key whose integers differ decides; rows whose
keys all tie stand in the order of their texts. -/
def InOrder : List SortKey → Row → Row → Prop
  | [], a, b => (a.compare b).isLE
  | k :: ks, a, b => ∃ m n, k.integer? a = some m ∧ k.integer? b = some n ∧
      ((if k.ascending then m < n else n < m) ∨ m = n ∧ InOrder ks a b)

theorem SortKey.integer_of_value {k : SortKey} {r : Row} {n : Int} (h : k.value r = .ok n) :
    k.integer? r = some n := by
  have hopt := congrArg Except.toOption h
  simp only [SortKey.value, toOption_bind, Row.toOption_get, Row.toOption_integer] at hopt
  exact hopt

theorem inOrder_of_compare {ks : List SortKey} {a b : Row} {as bs : List Int}
    (ha : List.Forall₂ (fun k n => SortKey.value k a = .ok n) ks as)
    (hb : List.Forall₂ (fun k n => SortKey.value k b = .ok n) ks bs)
    (h : ((SortKey.compareAll ks as bs).then (a.compare b)).isLE = true) : InOrder ks a b := by
  induction ha generalizing bs with
  | nil =>
    cases hb
    exact h
  | @cons k m ks as hm _ ih =>
    cases hb with
    | @cons _ n _ bs hn hb =>
      refine ⟨m, n, SortKey.integer_of_value hm, SortKey.integer_of_value hn, ?_⟩
      rw [SortKey.compareAll, Ordering.then_assoc, Ordering.isLE_then_iff_or] at h
      unfold SortKey.compare at h
      rcases h with h | ⟨heq, h⟩
      · left
        split at h
        · rw [if_pos ‹_›]
          exact Int.compare_eq_lt.mp h
        · rw [if_neg ‹_›]
          exact Int.compare_eq_lt.mp h
      · refine .inr ⟨?_, ih hb h⟩
        split at heq
        · exact Int.compare_eq_eq.mp heq
        · exact (Int.compare_eq_eq.mp heq).symm

/-- The integers with the sign that makes all keys ascending. -/
def signed (ks : List SortKey) (ns : List Int) : List Int :=
  List.zipWith (fun k n => if k.ascending then n else -n) ks ns

theorem compareAll_eq {ks : List SortKey} {as bs : List Int} (ha : as.length = ks.length)
    (hb : bs.length = ks.length) :
    SortKey.compareAll ks as bs = compare (signed ks as) (signed ks bs) := by
  induction ks generalizing as bs with
  | nil => rfl
  | cons k ks ih =>
    cases as with
    | nil => cases ha
    | cons m as =>
      cases bs with
      | nil => cases hb
      | cons n bs =>
        have hrest := ih (Nat.succ.inj ha) (Nat.succ.inj hb)
        have hkey : k.compare m n =
            compare (if k.ascending then m else -m) (if k.ascending then n else -n) := by
          unfold SortKey.compare
          split
          · rfl
          · rw [Int.compare_eq_ite_lt, Int.compare_eq_ite_lt]
            simp only [Int.neg_lt_neg_iff]
        rw [SortKey.compareAll, hrest, hkey]
        exact List.compare_cons_cons.symm

/-- The order of rows with as many key integers as there are keys, which is total. -/
def keyedOrder (ks : List SortKey) : KeyedRow → KeyedRow → Ordering :=
  compareLex (compareOn fun a => signed ks a.keys) (compareOn fun a => a.row.fields)

theorem keyed_compare_eq {ks : List SortKey} {a b : KeyedRow} (ha : a.keys.length = ks.length)
    (hb : b.keys.length = ks.length) : KeyedRow.compare ks a b = keyedOrder ks a b := by
  rw [KeyedRow.compare, compareAll_eq ha hb]
  rfl

theorem keyedOrder_trans (ks : List SortKey) (a b c : KeyedRow) :
    (keyedOrder ks a b).isLE = true → (keyedOrder ks b c).isLE = true →
      (keyedOrder ks a c).isLE = true :=
  have : Std.TransCmp (keyedOrder ks) := by unfold keyedOrder; infer_instance
  Std.TransCmp.isLE_trans

theorem keyedOrder_total (ks : List SortKey) (a b : KeyedRow) :
    ((keyedOrder ks a b).isLE || (keyedOrder ks b a).isLE) = true := by
  have : Std.OrientedCmp (keyedOrder ks) := by unfold keyedOrder; infer_instance
  have hswap : (keyedOrder ks b a).isGE = (keyedOrder ks a b).isLE := Std.OrientedCmp.isGE_eq_isLE
  rw [← hswap]
  cases keyedOrder ks b a <;> rfl

/-- A row with its key integers keeps the row, and has an integer for each key. -/
theorem forall₂_of_ofRow {ks : List SortKey} {rows : List Row} {keyed : List KeyedRow}
    (h : rows.mapM (KeyedRow.ofRow ks) = .ok keyed) : keyed.map (·.row) = rows ∧
      ∀ a ∈ keyed, List.Forall₂ (fun k n => SortKey.value k a.row = .ok n) ks a.keys := by
  have hkeyed := mapM_eq_ok_iff.mp h
  clear h
  induction hkeyed with
  | nil => exact ⟨rfl, fun a ha => nomatch ha⟩
  | @cons r a rows keyed ha _ ih =>
    obtain ⟨ns, hns, ha⟩ := bind_eq_ok_iff.mp ha
    cases ha
    exact ⟨congrArg (r :: ·) ih.1, List.forall_mem_cons.mpr ⟨mapM_eq_ok_iff.mp hns, ih.2⟩⟩

/-- Sorting by keys is sorting by the total order, if no key integer is missing. -/
theorem mergeSort_keyed {ks : List SortKey} {keyed : List KeyedRow}
    (h : ∀ a ∈ keyed, a.keys.length = ks.length) :
    keyed.mergeSort (fun a b => KeyedRow.compare ks a b != .gt) =
      keyed.mergeSort fun a b => (keyedOrder ks a b).isLE := by
  have hle : ∀ a ∈ keyed, ∀ b ∈ keyed,
      (KeyedRow.compare ks a b != .gt) = (keyedOrder ks (id a) (id b)).isLE := by
    intro a ha b hb
    rw [keyed_compare_eq (h a ha) (h b hb), id, id]
    cases keyedOrder ks a b <;> rfl
  have hmap := List.map_mergeSort (s := fun a b => (keyedOrder ks a b).isLE) hle
  rwa [List.map_id, List.map_id] at hmap

theorem perm_and_pairwise_of_sortRows {ks : List SortKey} {rows out : List Row}
    (h : sortRows ks rows = .ok out) : out.Perm rows ∧ out.Pairwise (InOrder ks) := by
  obtain ⟨keyed, hkeyed, h⟩ := bind_eq_ok_iff.mp h
  cases h
  obtain ⟨hrows, hvalues⟩ := forall₂_of_ofRow hkeyed
  have hlength : ∀ a ∈ keyed, a.keys.length = ks.length :=
    fun a ha => (hvalues a ha).length_eq.symm
  refine ⟨hrows ▸ (List.mergeSort_perm keyed _).map _, ?_⟩
  rw [mergeSort_keyed hlength, List.pairwise_map]
  have hsorted := List.pairwise_mergeSort (keyedOrder_trans ks) (keyedOrder_total ks) keyed
  refine hsorted.imp_of_mem ?_
  intro a b ha hb hab
  have ha' := (List.mergeSort_perm keyed _).subset ha
  have hb' := (List.mergeSort_perm keyed _).subset hb
  rw [← keyed_compare_eq (hlength a ha') (hlength b hb')] at hab
  exact inOrder_of_compare (hvalues a ha') (hvalues b hb') hab

end FlatQuery.Rows
