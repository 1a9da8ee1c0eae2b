import FlatQuery.Proofs.Rows.Fields
import FlatQuery.Proofs.Rows.Grouped
import FlatQuery.Proofs.Rows.Denotation
import Mathlib.Data.List.Perm.Basic

/-!
# Rows in another order

What becomes of rows that come in another order.  Streams are alike (`Yield.Alike`) if both fail or
neither does, and in the second case they hand out the same rows in some order; what is done row by
row keeps them alike (`Alike.bind`), and so does dropping repeated rows (`Alike.distinct`).  Sorting
erases the order of its input (`sortRows_perm`), because rows that tie in everything are equal.
-/

namespace FlatQuery.Rows

open Outcome

/-! ### Repeated members -/

theorem nodup_eraseDups {α : Type} [BEq α] [LawfulBEq α] : ∀ l : List α, l.eraseDups.Nodup
  | [] => List.nodup_nil
  | a :: rest => by
    have hnot : a ∉ (rest.filter fun b => !b == a).eraseDups := by
      rw [List.mem_eraseDups, List.mem_filter]
      simp
    rw [List.eraseDups_cons]
    exact List.nodup_cons.mpr ⟨hnot, nodup_eraseDups _⟩
  termination_by l => l.length
  decreasing_by exact Nat.lt_succ_of_le (List.length_filter_le _ _)

theorem eraseDups_perm {α : Type} [BEq α] [LawfulBEq α] {xs ys : List α} (h : xs.Perm ys) :
    xs.eraseDups.Perm ys.eraseDups := by
  refine (List.perm_ext_iff_of_nodup (nodup_eraseDups xs) (nodup_eraseDups ys)).mpr ?_
  intro a
  rw [List.mem_eraseDups, List.mem_eraseDups, h.mem_iff]

/-- Members that have only one partner each give the same partners in some order. -/
theorem perm_of_forall₂ {α β : Type} {R R' : α → β → Prop} {xs xs' : List α} {ys ys' : List β}
    (hp : xs.Perm xs') (h : List.Forall₂ R xs ys) (h' : List.Forall₂ R' xs' ys')
    (hone : ∀ x ∈ xs, ∀ y y', R x y → R' x y' → y = y') : ys.Perm ys' := by
  obtain ⟨zs, hzs, hperm⟩ := List.perm_comp_forall₂ hp h'
  have hsame : ys = zs := by
    clear hperm hp h'
    induction h generalizing zs with
    | nil =>
      cases hzs
      rfl
    | cons hy _ ih =>
      obtain ⟨hx, hxs⟩ := List.forall_mem_cons.mp hone
      cases hzs with
      | cons hz hzs => exact congrArg₂ List.cons (hx _ _ hy hz) (ih hxs _ hzs)
  exact hsame ▸ hperm

/-! ### Sorting -/

theorem eq_of_keyedOrder {ks : List SortKey} {a b : KeyedRow}
    (ha : List.Forall₂ (fun k n => SortKey.value k a.row = .ok n) ks a.keys)
    (hb : List.Forall₂ (fun k n => SortKey.value k b.row = .ok n) ks b.keys)
    (hab : (keyedOrder ks a b).isLE = true) (hba : (keyedOrder ks b a).isLE = true) : a = b := by
  have : Std.OrientedCmp (keyedOrder ks) := by unfold keyedOrder; infer_instance
  have heq : keyedOrder ks a b = .eq := Std.OrientedCmp.isLE_antisymm hab hba
  have hfields : a.row.fields = b.row.fields :=
    Std.LawfulEqCmp.eq_of_compare (compareLex_eq_eq.mp heq).2
  obtain ⟨as, ⟨fields⟩⟩ := a
  obtain ⟨bs, ⟨fields'⟩⟩ := b
  obtain rfl : fields = fields' := hfields
  -- the integers of the keys are those of the one row
  have hkeys : as = bs := by
    rw [← mapM_eq_ok_iff] at ha hb
    exact Except.ok.inj (ha.symm.trans hb)
  rw [hkeys]

/-- Rows that can be sorted come out in the same order however they come in. -/
theorem sortRows_perm {ks : List SortKey} {rows rows' out : List Row} (hp : rows'.Perm rows)
    (h : sortRows ks rows = .ok out) : sortRows ks rows' = .ok out := by
  obtain ⟨keyed, hkeyed, h⟩ := bind_eq_ok_iff.mp h
  cases h
  obtain ⟨keyed', hkeyed', hperm⟩ := List.perm_comp_forall₂ hp (mapM_eq_ok_iff.mp hkeyed)
  rw [← mapM_eq_ok_iff] at hkeyed'
  refine bind_eq_ok_iff.mpr ⟨keyed', hkeyed', congrArg Except.ok (congrArg _ ?_)⟩
  have hvalues := (forall₂_of_ofRow hkeyed).2
  have hvalues' := (forall₂_of_ofRow hkeyed').2
  rw [mergeSort_keyed fun a ha => (hvalues a ha).length_eq.symm,
    mergeSort_keyed fun a ha => (hvalues' a ha).length_eq.symm]
  refine List.Perm.eq_of_pairwise ?_
    (List.pairwise_mergeSort (keyedOrder_trans ks) (keyedOrder_total ks) keyed')
    (List.pairwise_mergeSort (keyedOrder_trans ks) (keyedOrder_total ks) keyed)
    ((List.mergeSort_perm keyed' _).trans (hperm.trans (List.mergeSort_perm keyed _).symm))
  intro a b ha hb
  exact eq_of_keyedOrder (hvalues' a (List.mem_mergeSort.mp ha)) (hvalues b (List.mem_mergeSort.mp hb))

/-! ### Streams -/

namespace Yield

/-- That two streams both fail or neither does, and then hand out the same rows in some order. -/
structure Alike (y z : Yield) : Prop where
  error : y.error = none ↔ z.error = none
  rows : y.error = none → y.rows.Perm z.rows

variable {y z : Yield} {f g : Row → Yield}

theorem Alike.refl (y : Yield) : Alike y y :=
  ⟨Iff.rfl, fun _ => .refl _⟩

theorem rows_bind (h : (y.bind f).error = none) :
    (y.bind f).rows = y.rows.flatMap fun r => (f r).rows := by
  obtain ⟨rows, e⟩ := y
  obtain ⟨he, hall⟩ := bind_error.mp h
  obtain rfl : e = none := he
  clear h
  induction rows with
  | nil => rfl
  | cons r rows ih =>
    obtain ⟨hr, hrows⟩ := List.forall_mem_cons.mp hall
    change ((f r).append ((Yield.mk rows none).bind f)).rows = _
    rw [List.flatMap_cons, ← ih hrows, append, hr]

/-- Putting streams that are alike in place of each row keeps streams alike. -/
theorem Alike.bind (h : Alike y z) (hf : ∀ r, Alike (f r) (g r)) :
    Alike (y.bind f) (z.bind g) := by
  have herror : (y.bind f).error = none ↔ (z.bind g).error = none := by
    rw [bind_error, bind_error]
    constructor
    · rintro ⟨hy, hall⟩
      exact ⟨h.error.mp hy, fun r hr => (hf r).error.mp (hall r ((h.rows hy).mem_iff.mpr hr))⟩
    · rintro ⟨hz, hall⟩
      have hy := h.error.mpr hz
      exact ⟨hy, fun r hr => (hf r).error.mpr (hall r ((h.rows hy).mem_iff.mp hr))⟩
  refine ⟨herror, fun hy => ?_⟩
  rw [rows_bind hy, rows_bind (herror.mp hy)]
  obtain ⟨hnone, hall⟩ := bind_error.mp hy
  exact (h.rows hnone).flatMap fun r hr => (hf r).rows (hall r hr)

theorem ofRows_error {outcome : Except Error (List Row)} :
    (ofRows outcome).error = none ↔ ∃ rows, outcome = .ok rows := by
  cases outcome with
  | error e =>
    refine iff_of_false (fun h => nomatch h) ?_
    rintro ⟨rows, h⟩
    cases h
  | ok rows => exact iff_of_true rfl ⟨rows, rfl⟩

theorem Alike.distinct (h : Alike y z) :
    Alike (ofRows (gatheredRows deduplicating y)) (ofRows (gatheredRows deduplicating z)) := by
  have hrows : ∀ {x : Yield}, x.error = none →
      gatheredRows deduplicating x = .ok x.rows.eraseDups := fun hx =>
    gatheredRows_deduplicating.mpr ⟨hx, rfl⟩
  have herror : ∀ {x : Yield},
      (ofRows (gatheredRows deduplicating x)).error = none ↔ x.error = none := by
    intro x
    rw [ofRows_error]
    exact ⟨fun ⟨_, hx⟩ => (gatheredRows_deduplicating.mp hx).1, fun hx => ⟨_, hrows hx⟩⟩
  refine ⟨by rw [herror, herror, h.error], fun hy => ?_⟩
  have hy' := herror.mp hy
  rw [hrows hy', hrows (h.error.mp hy')]
  exact eraseDups_perm (h.rows hy')

/-- Streams that are alike are the same once they are sorted, unless they fail. -/
theorem Alike.sorted (h : Alike y z) (ks : List SortKey) {out : List Row} :
    gatheredRows (sorting ks) y = .ok out ↔ gatheredRows (sorting ks) z = .ok out := by
  rw [gatheredRows_sorting, gatheredRows_sorting]
  constructor
  · rintro ⟨hy, hout⟩
    exact ⟨h.error.mp hy, sortRows_perm (h.rows hy).symm hout⟩
  · rintro ⟨hz, hout⟩
    have hy := h.error.mpr hz
    exact ⟨hy, sortRows_perm (h.rows hy) hout⟩

end Yield

/-! ### Grouping without sums -/

/-- A row can be gathered into groups without sums if it has the grouping fields. -/
theorem exists_addRow_iff {spec : GroupSpec} (hsums : spec.sums = [])
    (hshown : spec.shown ⊆ spec.group) {groups : List Group} {row : Row} :
    (∃ out, spec.addRow groups row = .ok out) ↔ ∃ key, row.pick spec.group = .ok key := by
  constructor
  · rintro ⟨out, h⟩
    obtain ⟨key, hkey, -⟩ := bind_eq_ok_iff.mp h
    exact ⟨key, hkey⟩
  · rintro ⟨key, hkey⟩
    have hwidth := exists_pick_iff.mp ⟨key, hkey⟩
    obtain ⟨shown, hpick⟩ := exists_pick_iff.mpr fun i hi => hwidth i (hshown hi)
    have hadd : ∀ g : Group, ∃ g', g.add spec row = .ok g' := by
      intro g
      refine ⟨{ g with sums := [] }, bind_eq_ok_iff.mpr ⟨[], ?_, rfl⟩⟩
      rw [hsums]
      rfl
    have hgroups : ∃ out, spec.addToGroups key.fields row groups = .ok out := by
      induction groups with
      | nil =>
        obtain ⟨g, hg⟩ := hadd { key := key.fields, shown := shown.fields, sums := spec.zeros }
        exact ⟨[g], bind_eq_ok_iff.mpr ⟨shown, hpick, bind_eq_ok_iff.mpr ⟨g, hg, rfl⟩⟩⟩
      | cons g rest ih =>
        rw [GroupSpec.addToGroups]
        split
        · obtain ⟨g', hg'⟩ := hadd g
          exact ⟨g' :: rest, bind_eq_ok_iff.mpr ⟨g', hg', rfl⟩⟩
        · obtain ⟨rest', hrest⟩ := ih
          exact ⟨g :: rest', bind_eq_ok_iff.mpr ⟨rest', hrest, rfl⟩⟩
    obtain ⟨out, hout⟩ := hgroups
    exact ⟨out, bind_eq_ok_iff.mpr ⟨key, hkey, hout⟩⟩

/-- Rows can be gathered into groups without sums if each has the grouping fields. -/
theorem exists_gathered_grouping_iff {spec : GroupSpec} (hsums : spec.sums = [])
    (hshown : spec.shown ⊆ spec.group) {y : Yield} :
    (∃ out, gatheredRows (grouping spec) y = .ok out) ↔
      y.error = none ∧ ∀ r ∈ y.rows, ∃ key, r.pick spec.group = .ok key := by
  have hfold : ∀ (rows : List Row) (groups : List Group),
      (∃ out, rows.foldlM spec.addRow groups = .ok out) ↔
        ∀ r ∈ rows, ∃ key, r.pick spec.group = .ok key := by
    intro rows
    induction rows with
    | nil => exact fun groups => iff_of_true ⟨groups, rfl⟩ fun r hr => nomatch hr
    | cons r rows ih =>
      intro groups
      have hrow : (∃ groups', spec.addRow groups r = .ok groups') ↔
          ∃ key, r.pick spec.group = .ok key := exists_addRow_iff hsums hshown
      rw [List.forall_mem_cons, ← hrow]
      simp only [List.foldlM_cons, bind_eq_ok_iff]
      constructor
      · rintro ⟨out, groups', hr, hrows⟩
        exact ⟨⟨groups', hr⟩, (ih groups').mp ⟨out, hrows⟩⟩
      · rintro ⟨⟨groups', hr⟩, hrows⟩
        obtain ⟨out, hout⟩ := (ih groups').mpr hrows
        exact ⟨out, groups', hr, hout⟩
  simp only [gatheredRows_eq_ok_iff, ← hfold y.rows (grouping spec).start]
  constructor
  · rintro ⟨out, hy, acc, hacc, -⟩
    exact ⟨hy, acc, hacc⟩
  · rintro ⟨hy, acc, hacc⟩
    exact ⟨_, hy, acc, hacc, rfl⟩

/-- Streams that are alike can both be grouped without sums, or neither can. -/
theorem Yield.Alike.exists_grouped_iff {spec : GroupSpec} (hsums : spec.sums = [])
    (hshown : spec.shown ⊆ spec.group) {y z : Yield} (h : Alike y z) :
    (∃ out, gatheredRows (grouping spec) y = .ok out) ↔
      ∃ out, gatheredRows (grouping spec) z = .ok out := by
  rw [exists_gathered_grouping_iff hsums hshown, exists_gathered_grouping_iff hsums hshown]
  constructor
  · rintro ⟨hy, hall⟩
    exact ⟨h.error.mp hy, fun r hr => hall r ((h.rows hy).mem_iff.mpr hr)⟩
  · rintro ⟨hz, hall⟩
    have hy := h.error.mpr hz
    exact ⟨hy, fun r hr => hall r ((h.rows hy).mem_iff.mp hr)⟩

end FlatQuery.Rows
