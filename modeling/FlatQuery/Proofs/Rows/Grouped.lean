import FlatQuery.Proofs.Query.Truth
import FlatQuery.Proofs.Rows.Sorted
import FlatQuery.Rows.GroupSum
import Mathlib.Algebra.Ring.Int.Defs
import Mathlib.Data.List.Nodup

/-!
# Groups and sums

Grouping keeps one group for each value of the grouping fields, in the order in which the values are
first met, and what a group has summed up is the sum over its rows.  `Summary` says this of the
groups that some rows have been gathered into; a row more keeps it true (`Summary.step`), so it
holds of the whole input (`gatheredRows_grouping`).
-/

namespace FlatQuery.Rows

open Outcome

def fieldsAt (indexes : List Nat) (r : Row) : List (Option String) :=
  indexes.map (r.fields[·]?)

theorem fieldsAt_of_get {indexes : List Nat} {r : Row} {fields : List String}
    (h : List.Forall₂ (fun i s => r.get i = .ok s) indexes fields) :
    fields.map some = fieldsAt indexes r := by
  induction h with
  | nil => rfl
  | @cons i s indexes fields hi _ ih =>
    rw [← toOption_eq_some_iff, Row.toOption_get] at hi
    simp only [fieldsAt, List.map_cons, hi]
    exact congrArg (some s :: ·) ih

theorem fieldsAt_of_pick {indexes : List Nat} {r out : Row} (h : r.pick indexes = .ok out) :
    out.fields.map some = fieldsAt indexes r := by
  obtain ⟨fields, hfields, h⟩ := bind_eq_ok_iff.mp h
  cases h
  exact fieldsAt_of_get (mapM_eq_ok_iff.mp hfields)

/-! ### Sums -/

/-- That an integer is the sum of a term over some rows. -/
def IsSum (members : List Row) (t : Term) (n : Int) : Prop :=
  ∃ ms, List.Forall₂ (fun r m => t.summand r = .ok m) members ms ∧ n = ms.sum

theorem forall₂_concat {α β : Type} {R : α → β → Prop} {as : List α} {bs : List β} {a : α} {b : β}
    (h : List.Forall₂ R as bs) (hab : R a b) : List.Forall₂ R (as ++ [a]) (bs ++ [b]) :=
  List.rel_append h (.cons hab .nil)

/-- Adding the summands of a row turns the sums over some rows into those with one row more. -/
theorem isSum_concat {members : List Row} {row : Row} {ts : List Term} {sums out : List Int}
    (h : List.Forall₂ (IsSum members) ts sums)
    (hadd : Group.addSummands row ts sums = .ok out) :
    List.Forall₂ (IsSum (members ++ [row])) ts out := by
  induction h generalizing out with
  | nil =>
    cases hadd
    exact .nil
  | @cons t n ts sums hn _ ih =>
    obtain ⟨m, hm, hadd⟩ := bind_eq_ok_iff.mp hadd
    split at hadd
    · cases hadd
    · rename_i total htotal
      obtain ⟨rest, hrest, hadd⟩ := bind_eq_ok_iff.mp hadd
      cases hadd
      obtain ⟨ms, hms, rfl⟩ := hn
      refine .cons ⟨ms ++ [m], forall₂_concat hms hm, ?_⟩ (ih hrest)
      rw [(Integer.checked_eq_some_iff.mp htotal).2, List.sum_append, List.sum_singleton]

theorem isSum_zeros (spec : GroupSpec) :
    List.Forall₂ (IsSum []) spec.sums spec.zeros := by
  unfold GroupSpec.zeros
  induction spec.sums with
  | nil => exact .nil
  | cons t ts ih => exact .cons ⟨[], .nil, rfl⟩ ih

/-! ### Groups -/

variable {spec : GroupSpec} {key : List String} {row : Row} {seen rows : List Row}
  {groups out : List Group}

/-- A row is added to the group of its key if there is one, and to a new group otherwise. -/
theorem addToGroups_cases (h : spec.addToGroups key row groups = .ok out) :
    (∃ before g after g', groups = before ++ g :: after ∧ g.key = key ∧
        g.add spec row = .ok g' ∧ out = before ++ g' :: after) ∨
      (key ∉ groups.map (·.key) ∧ ∃ shown g', row.pick spec.shown = .ok shown ∧
        Group.add spec { key, shown := shown.fields, sums := spec.zeros } row = .ok g' ∧
          out = groups ++ [g']) := by
  induction groups generalizing out with
  | nil =>
    obtain ⟨shown, hshown, h⟩ := bind_eq_ok_iff.mp h
    obtain ⟨g', hg', h⟩ := bind_eq_ok_iff.mp h
    cases h
    exact .inr ⟨List.not_mem_nil, shown, g', hshown, hg', rfl⟩
  | cons g rest ih =>
    rw [GroupSpec.addToGroups] at h
    split at h
    · rename_i hkey
      obtain ⟨g', hg', h⟩ := bind_eq_ok_iff.mp h
      cases h
      exact .inl ⟨[], g, rest, g', rfl, hkey, hg', rfl⟩
    · rename_i hkey
      obtain ⟨rest', hrest, h⟩ := bind_eq_ok_iff.mp h
      cases h
      rcases ih hrest with ⟨before, u, after, u', rfl, hu, hadd, rfl⟩ |
        ⟨hnot, shown, g', hshown, hg', rfl⟩
      · exact .inl ⟨g :: before, u, after, u', rfl, hu, hadd, rfl⟩
      · refine .inr ⟨?_, shown, g', hshown, hg', rfl⟩
        rw [List.map_cons, List.mem_cons, not_or]
        exact ⟨Ne.symm hkey, hnot⟩

/-- What a group holds of its rows: the fields shown are those of one of them, and the sums are over
all of them. -/
structure Totals (spec : GroupSpec) (members : List Row) (g : Group) : Prop where
  shown : ∃ r ∈ members, g.shown.map some = fieldsAt spec.shown r
  sums : List.Forall₂ (IsSum members) spec.sums g.sums

/-- The rows that belong to a key. -/
def membersOf (spec : GroupSpec) (rows : List Row) (key : List (Option String)) : List Row :=
  rows.filter fun r => fieldsAt spec.group r = key

/-- That rows have been gathered into groups: one for each key, in the order of first meeting. -/
structure Summary (spec : GroupSpec) (rows : List Row) (groups : List Group) : Prop where
  keys : groups.map (fun g => g.key.map some) = (rows.map (fieldsAt spec.group)).eraseDups
  nodup : (groups.map (·.key)).Nodup
  totals : ∀ g ∈ groups, Totals spec (membersOf spec rows (g.key.map some)) g

theorem eraseDups_concat (keys : List (List (Option String))) (k : List (Option String)) :
    (keys ++ [k]).eraseDups = if k ∈ keys then keys.eraseDups else keys.eraseDups ++ [k] := by
  rw [List.eraseDups_append]
  by_cases h : k ∈ keys
  · simp [List.removeAll, h]
  · simp [List.removeAll, h, List.eraseDups_cons]

theorem membersOf_concat (spec : GroupSpec) (rows : List Row) (row : Row)
    (key : List (Option String)) : membersOf spec (rows ++ [row]) key =
      if fieldsAt spec.group row = key then membersOf spec rows key ++ [row]
      else membersOf spec rows key := by
  unfold membersOf
  rw [List.filter_append]
  split <;> simp [*]

theorem add_eq_ok {g g' : Group} (h : g.add spec row = .ok g') :
    g'.key = g.key ∧ g'.shown = g.shown ∧
      Group.addSummands row spec.sums g.sums = .ok g'.sums := by
  obtain ⟨sums, hsums, h⟩ := bind_eq_ok_iff.mp h
  cases h
  exact ⟨rfl, rfl, hsums⟩

theorem map_some_inj {xs ys : List String} : xs.map some = ys.map some ↔ xs = ys :=
  List.map_inj_right fun _ _ => Option.some.inj

/-- The key of a row is that of some group exactly if a row of that key has been gathered. -/
theorem Summary.mem_keys (h : Summary spec rows groups) :
    key ∈ groups.map (·.key) ↔ key.map some ∈ rows.map (fieldsAt spec.group) := by
  have hkeys : key.map some ∈ rows.map (fieldsAt spec.group) ↔
      key.map some ∈ groups.map fun g => g.key.map some := by
    rw [h.keys, List.mem_eraseDups]
  rw [hkeys, List.mem_map, List.mem_map]
  exact exists_congr fun g => and_congr_right fun _ => map_some_inj.symm

theorem Summary.eq_nil_iff (h : Summary spec rows groups) : groups = [] ↔ rows = [] := by
  have hkeys := h.keys
  cases rows with
  | nil => exact iff_of_true (List.map_eq_nil_iff.mp hkeys) rfl
  | cons r rows =>
    refine iff_of_false ?_ (List.cons_ne_nil r rows)
    intro hg
    rw [hg, List.map_cons, List.eraseDups_cons] at hkeys
    cases hkeys

theorem Summary.totals_of_ne (h : Summary spec rows groups)
    (hkey : key.map some = fieldsAt spec.group row) {u : Group} (hu : u ∈ groups)
    (hne : u.key ≠ key) : Totals spec (membersOf spec (rows ++ [row]) (u.key.map some)) u := by
  have hother : ¬ fieldsAt spec.group row = u.key.map some := by
    intro he
    exact hne (map_some_inj.mp (hkey.trans he)).symm
  rw [membersOf_concat, if_neg hother]
  exact h.totals u hu

/-- The group of the key takes the row, and the others stay as they are. -/
theorem Summary.taken {before after : List Group} {g g' : Group}
    (h : Summary spec rows (before ++ g :: after)) (hg : g.key.map some = fieldsAt spec.group row)
    (hadd : g.add spec row = .ok g') : Summary spec (rows ++ [row]) (before ++ g' :: after) := by
  obtain ⟨hkey, hshown, hsums⟩ := add_eq_ok hadd
  have hmem : g ∈ before ++ g :: after := List.mem_append_right _ (List.mem_cons_self ..)
  have hin : fieldsAt spec.group row ∈ rows.map (fieldsAt spec.group) :=
    hg ▸ h.mem_keys.mp (List.mem_map_of_mem hmem)
  have hnodup := h.nodup
  rw [List.map_append, List.map_cons, List.nodup_middle, List.nodup_cons, List.mem_append,
    not_or] at hnodup
  refine ⟨?_, ?_, ?_⟩
  · have hseen : ((rows ++ [row]).map (fieldsAt spec.group)).eraseDups =
        (rows.map (fieldsAt spec.group)).eraseDups := by
      rw [List.map_append, List.map_singleton, eraseDups_concat, if_pos hin]
    rw [hseen, ← h.keys]
    simp only [List.map_append, List.map_cons, hkey]
  · have hsame := h.nodup
    rw [List.map_append, List.map_cons] at hsame ⊢
    rwa [hkey]
  · intro u hu
    rcases List.mem_append.mp hu with hu | hu
    · have hne : u.key ≠ g.key := fun he => hnodup.1.1 (he ▸ List.mem_map_of_mem hu)
      exact h.totals_of_ne hg (List.mem_append_left _ hu) hne
    · rcases List.mem_cons.mp hu with rfl | hu
      · obtain ⟨⟨r, hr, hr'⟩, hsums'⟩ := h.totals g hmem
        rw [hkey, membersOf_concat, if_pos hg.symm]
        exact ⟨⟨r, List.mem_append_left _ hr, hshown ▸ hr'⟩, isSum_concat hsums' hsums⟩
      · have hne : u.key ≠ g.key := fun he => hnodup.1.2 (he ▸ List.mem_map_of_mem hu)
        exact h.totals_of_ne hg (List.mem_append_right _ (List.mem_cons_of_mem _ hu)) hne

theorem Summary.membersOf_eq_nil (h : Summary spec rows groups)
    (hnot : key ∉ groups.map (·.key)) : membersOf spec rows (key.map some) = [] := by
  refine List.filter_eq_nil_iff.mpr ?_
  intro r hr he
  exact hnot (h.mem_keys.mpr (List.mem_map.mpr ⟨r, hr, of_decide_eq_true he⟩))

theorem Summary.opened {shown : Row} {g' : Group} (h : Summary spec rows groups)
    (hkey : key.map some = fieldsAt spec.group row) (hnot : key ∉ groups.map (·.key))
    (hshown : row.pick spec.shown = .ok shown)
    (hadd : Group.add spec { key, shown := shown.fields, sums := spec.zeros } row = .ok g') :
    Summary spec (rows ++ [row]) (groups ++ [g']) := by
  obtain ⟨hkey', hshown', hsums⟩ := add_eq_ok hadd
  have hout : fieldsAt spec.group row ∉ rows.map (fieldsAt spec.group) := by
    intro hin
    exact hnot (h.mem_keys.mpr (hkey ▸ hin))
  have hnone := h.membersOf_eq_nil hnot
  refine ⟨?_, ?_, ?_⟩
  · rw [List.map_append, List.map_append, List.map_singleton, List.map_singleton,
      eraseDups_concat, if_neg hout, ← h.keys, hkey', hkey]
  · rw [List.map_append, List.map_singleton, hkey']
    refine List.nodup_append.mpr ⟨h.nodup, List.nodup_singleton _, ?_⟩
    intro a ha b hb hab
    rw [hab, List.mem_singleton.mp hb] at ha
    exact hnot ha
  · intro u hu
    rcases List.mem_append.mp hu with hu | hu
    · have hne : u.key ≠ key := fun he => hnot (he ▸ List.mem_map_of_mem hu)
      exact h.totals_of_ne hkey hu hne
    · obtain rfl := List.mem_singleton.mp hu
      rw [hkey', membersOf_concat, if_pos hkey.symm, hnone, List.nil_append]
      refine ⟨⟨row, List.mem_singleton_self row, ?_⟩, isSum_concat (isSum_zeros spec) hsums⟩
      rw [hshown']
      exact fieldsAt_of_pick hshown

theorem Summary.step (h : Summary spec rows groups) (hadd : spec.addRow groups row = .ok out) :
    Summary spec (rows ++ [row]) out := by
  obtain ⟨picked, hpicked, hadd⟩ := bind_eq_ok_iff.mp hadd
  have hfields := fieldsAt_of_pick hpicked
  rcases addToGroups_cases hadd with ⟨before, g, after, g', rfl, hg, hg', rfl⟩ |
    ⟨hnot, shown, g', hshown, hg', rfl⟩
  · exact h.taken (hg ▸ hfields) hg'
  · exact h.opened hfields hnot hshown hg'

theorem summary_nil (spec : GroupSpec) : Summary spec [] [] :=
  ⟨rfl, List.nodup_nil, fun _ hg => nomatch hg⟩

theorem summary_of_foldlM (hfold : rows.foldlM spec.addRow [] = .ok out) :
    Summary spec rows out := by
  have hstep : ∀ seen groups row groups', Summary spec seen groups →
      spec.addRow groups row = .ok groups' → Summary spec (seen ++ [row]) groups' :=
    fun _ _ _ _ h hadd => h.step hadd
  exact kept_of_foldlM hstep (summary_nil spec) hfold

/-- All rows are gathered into groups, and then each group gives its row. -/
theorem gatheredRows_grouping {y : Yield} {out : List Row}
    (h : gatheredRows (grouping spec) y = .ok out) :
    y.error = none ∧ ∃ groups, Summary spec y.rows groups ∧ out = spec.rows groups := by
  obtain ⟨herror, groups, hfold, hout⟩ := gatheredRows_eq_ok_iff.mp h
  exact ⟨herror, groups, summary_of_foldlM hfold, (Except.ok.inj hout).symm⟩

end FlatQuery.Rows
