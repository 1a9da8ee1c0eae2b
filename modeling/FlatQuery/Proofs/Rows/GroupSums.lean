import FlatQuery.Proofs.Rows.Calls
import FlatQuery.Proofs.Rows.Fields
import FlatQuery.Proofs.Rows.Grouped
import FlatQuery.Proofs.Rows.Start

/-!
# When grouping succeeds, and with what

Grouping takes one row after the other, and a row stops it if it lacks a field that is needed, if a
term has no value on it, or if a sum of its group leaves the range (`GroupSpec.Stops`).  What is
needed of a row and what its group has summed up so far is known from the rows before it
(`Summary`), so a step fails exactly if the row stops it (`Summary.stops_of_error`,
`Summary.not_stops_of_ok`), and the whole exactly if some row does.  If none does, the rows handed
out are those of the groups (`GroupSpec.Grouped`), each of which shows fields of the first row of its
group (`Firsts`).
-/

namespace FlatQuery.Rows

open Outcome

/-! ### Sums that leave the range -/

section Sums

variable {members : List Row} {row : Row} {t : Term} {ts : List Term} {sums out : List Int}
  {e : Error}

theorem IsSum.unique {n k : Int} (hn : IsSum members t n) (hk : IsSum members t k) : n = k := by
  obtain ⟨ns, hns, rfl⟩ := hn
  obtain ⟨ks, hks, rfl⟩ := hk
  have hsame : ns = ks := by
    rw [← mapM_eq_ok_iff] at hns hks
    exact Except.ok.inj (hns.symm.trans hks)
  rw [hsame]

theorem IsSum.concat {n k : Int} (hn : IsSum members t n) (hk : t.summand row = .ok k) :
    IsSum (members ++ [row]) t (n + k) := by
  obtain ⟨ns, hns, rfl⟩ := hn
  refine ⟨ns ++ [k], forall₂_concat hns hk, ?_⟩
  rw [List.sum_append, List.sum_singleton]

/-- Adding up fails only if a term has no value on the row, or its sum leaves the range. -/
theorem addSummands_eq_error (h : List.Forall₂ (IsSum members) ts sums)
    (hadd : Group.addSummands row ts sums = .error e) :
    (∃ t ∈ ts, t.summand row = .error e) ∨
      ∃ t ∈ ts, ∃ n, e = .sumOverflow t ∧ IsSum (members ++ [row]) t n ∧
        Integer.fits n = false := by
  induction h with
  | nil => cases hadd
  | @cons t n ts sums hn _ ih =>
    rw [Group.addSummands] at hadd
    rcases bind_eq_error_iff.mp hadd with hterm | ⟨k, hk, hadd⟩
    · exact .inl ⟨t, List.mem_cons_self .., hterm⟩
    · cases hsum : Integer.add? n k with
      | none =>
        rw [hsum] at hadd
        have hfit : Integer.fits (n + k) = false := by
          simpa [Integer.add?, Integer.checked] using hsum
        exact .inr ⟨t, List.mem_cons_self .., n + k, (Except.error.inj hadd).symm, hn.concat hk,
          hfit⟩
      | some total =>
        rw [hsum] at hadd
        rcases bind_eq_error_iff.mp hadd with hrest | ⟨rest, -, hadd⟩
        · rcases ih hrest with ⟨u, hu, hterm⟩ | ⟨u, hu, hrange⟩
          · exact .inl ⟨u, List.mem_cons_of_mem t hu, hterm⟩
          · exact .inr ⟨u, List.mem_cons_of_mem t hu, hrange⟩
        · cases hadd

/-- If adding up succeeds, every term has a value on the row and every sum is in range. -/
theorem addSummands_eq_ok (h : List.Forall₂ (IsSum members) ts sums)
    (hadd : Group.addSummands row ts sums = .ok out) (ht : t ∈ ts) :
    (∃ k, t.summand row = .ok k) ∧
      ∀ n, IsSum (members ++ [row]) t n → Integer.fits n = true := by
  induction h generalizing out with
  | nil => cases ht
  | @cons u n ts sums hn _ ih =>
    rw [Group.addSummands] at hadd
    obtain ⟨k, hk, hadd⟩ := bind_eq_ok_iff.mp hadd
    cases hsum : Integer.add? n k with
    | none =>
      rw [hsum] at hadd
      cases hadd
    | some total =>
      rw [hsum] at hadd
      obtain ⟨rest, hrest, -⟩ := bind_eq_ok_iff.mp hadd
      rcases List.mem_cons.mp ht with rfl | ht
      · refine ⟨⟨k, hk⟩, ?_⟩
        intro n' hn'
        rw [hn'.unique (hn.concat hk)]
        by_contra hfit
        simp [Integer.add?, Integer.checked, hfit] at hsum
      · exact ih hrest ht

end Sums

/-! ### What stops grouping -/

namespace GroupSpec

/-- That a row stops grouping when it comes after others, and the reason. -/
inductive Stops (spec : GroupSpec) (seen : List Row) (row : Row) : Error → Prop
  /-- A grouping field is missing. -/
  | key {i : Nat} (hi : i ∈ spec.group) (hmissing : row.width ≤ i) :
    Stops spec seen row (.indexOutOfRange i row.width)
  /-- A field to show is missing, in the first row of its group. -/
  | shown {i : Nat} (hfirst : fieldsAt spec.group row ∉ seen.map (fieldsAt spec.group))
    (hi : i ∈ spec.shown) (hmissing : row.width ≤ i) :
    Stops spec seen row (.indexOutOfRange i row.width)
  /-- A term has no value. -/
  | summand {t : Term} {e : Error} (ht : t ∈ spec.sums) (hvalue : t.summand row = .error e) :
    Stops spec seen row e
  /-- The sum of a term over the rows of the group so far leaves the range. -/
  | range {t : Term} {n : Int} (ht : t ∈ spec.sums)
    (hsum : IsSum (membersOf spec (seen ++ [row]) (fieldsAt spec.group row)) t n)
    (hfit : Integer.fits n = false) : Stops spec seen row (.sumOverflow t)

/-- That a row is the one of a group with some rows: fields of the first of them, and then the text
of the exact sum of each term over all of them. -/
def RowOf (spec : GroupSpec) (members : List Row) (o : Row) : Prop :=
  ∃ first rest shown sums, members = first :: rest ∧ first.pick spec.shown = .ok shown ∧
    List.Forall₂ (IsSum members) spec.sums sums ∧
      o.fields = shown.fields ++ sums.map Integer.toText

/-- That rows are those of the groups of others: one for each tuple of grouping values, in the order
in which the tuples are first met; and a row of zeros if there is nothing to group, by nothing, and
nothing to show. -/
def Grouped (spec : GroupSpec) (rows out : List Row) : Prop :=
  if rows = [] ∧ spec.group = [] ∧ spec.shown = [] then
    out = [⟨spec.sums.map fun _ => Integer.toText 0⟩]
  else
    List.Forall₂ (fun key o => spec.RowOf (membersOf spec rows key) o)
      (rows.map (fieldsAt spec.group)).eraseDups out

end GroupSpec

/-! ### Steps -/

variable {spec : GroupSpec} {key : List String} {row : Row} {seen rows : List Row}
  {groups out : List Group} {e : Error}

/-- Adding a row to its group fails as adding up does, or for want of a field to show. -/
theorem addToGroups_eq_error (h : spec.addToGroups key row groups = .error e) :
    (∃ g ∈ groups, g.key = key ∧ Group.addSummands row spec.sums g.sums = .error e) ∨
      (key ∉ groups.map (·.key) ∧ (row.pick spec.shown = .error e ∨
        Group.addSummands row spec.sums spec.zeros = .error e)) := by
  have hadd : ∀ {g : Group}, g.add spec row = .error e →
      Group.addSummands row spec.sums g.sums = .error e := by
    intro g hg
    rcases bind_eq_error_iff.mp hg with hg | ⟨sums, -, hg⟩
    · exact hg
    · cases hg
  induction groups with
  | nil =>
    refine .inr ⟨List.not_mem_nil, ?_⟩
    rcases bind_eq_error_iff.mp h with h | ⟨shown, -, h⟩
    · exact .inl h
    · rcases bind_eq_error_iff.mp h with h | ⟨g, -, h⟩
      · exact .inr (hadd h)
      · cases h
  | cons g rest ih =>
    rw [GroupSpec.addToGroups] at h
    split at h
    · rename_i hkey
      rcases bind_eq_error_iff.mp h with h | ⟨g', -, h⟩
      · exact .inl ⟨g, List.mem_cons_self .., hkey, hadd h⟩
      · cases h
    · rename_i hkey
      rcases bind_eq_error_iff.mp h with h | ⟨rest', -, h⟩
      · rcases ih h with ⟨u, hu, hukey, hsums⟩ | ⟨hnot, hcause⟩
        · exact .inl ⟨u, List.mem_cons_of_mem g hu, hukey, hsums⟩
        · refine .inr ⟨?_, hcause⟩
          rw [List.map_cons, List.mem_cons, not_or]
          exact ⟨Ne.symm hkey, hnot⟩
      · cases h

theorem Summary.sums_of_mem (h : Summary spec seen groups) {g : Group} (hg : g ∈ groups)
    (hkey : g.key.map some = fieldsAt spec.group row) :
    List.Forall₂ (IsSum (membersOf spec seen (fieldsAt spec.group row))) spec.sums g.sums :=
  hkey ▸ (h.totals g hg).sums

theorem Summary.sums_of_not_mem (h : Summary spec seen groups) (hnot : key ∉ groups.map (·.key))
    (hkey : key.map some = fieldsAt spec.group row) :
    List.Forall₂ (IsSum (membersOf spec seen (fieldsAt spec.group row))) spec.sums
      spec.zeros := by
  rw [← hkey, h.membersOf_eq_nil hnot]
  exact isSum_zeros spec

theorem membersOf_concat_self (spec : GroupSpec) (seen : List Row) (row : Row) :
    membersOf spec (seen ++ [row]) (fieldsAt spec.group row) =
      membersOf spec seen (fieldsAt spec.group row) ++ [row] := by
  rw [membersOf_concat, if_pos rfl]

/-- The key of a row is new exactly if no row before it has its grouping values. -/
theorem Summary.not_mem_keys (h : Summary spec seen groups)
    (hkey : key.map some = fieldsAt spec.group row) :
    key ∉ groups.map (·.key) ↔ fieldsAt spec.group row ∉ seen.map (fieldsAt spec.group) := by
  rw [h.mem_keys, hkey]

/-- **A step that fails.** -/
theorem Summary.stops_of_error (h : Summary spec seen groups)
    (hadd : spec.addRow groups row = .error e) : spec.Stops seen row e := by
  have hsummands : ∀ {sums : List Int},
      List.Forall₂ (IsSum (membersOf spec seen (fieldsAt spec.group row))) spec.sums sums →
      Group.addSummands row spec.sums sums = .error e → spec.Stops seen row e := by
    intro sums hsums herror
    rcases addSummands_eq_error hsums herror with ⟨t, ht, hvalue⟩ | ⟨t, ht, n, rfl, hn, hfit⟩
    · exact .summand ht hvalue
    · rw [← membersOf_concat_self] at hn
      exact .range ht hn hfit
  rcases bind_eq_error_iff.mp hadd with hpick | ⟨picked, hpicked, hadd⟩
  · obtain ⟨i, hi, hmissing, rfl⟩ := exists_of_pick_eq_error hpick
    exact .key hi hmissing
  · have hkey := fieldsAt_of_pick hpicked
    rcases addToGroups_eq_error hadd with ⟨g, hg, hgkey, herror⟩ | ⟨hnot, hshown | herror⟩
    · exact hsummands (h.sums_of_mem hg (hgkey ▸ hkey)) herror
    · obtain ⟨i, hi, hmissing, rfl⟩ := exists_of_pick_eq_error hshown
      exact .shown ((h.not_mem_keys hkey).mp hnot) hi hmissing
    · exact hsummands (h.sums_of_not_mem hnot hkey) herror

/-- **A step that succeeds.** -/
theorem Summary.not_stops_of_ok (h : Summary spec seen groups)
    (hadd : spec.addRow groups row = .ok out) : ¬ spec.Stops seen row e := by
  obtain ⟨picked, hpicked, hadd⟩ := bind_eq_ok_iff.mp hadd
  have hkey := fieldsAt_of_pick hpicked
  have hwidth := exists_pick_iff.mp ⟨picked, hpicked⟩
  -- what the group had summed up, whether it is an old one or a new one with all fields to show
  obtain ⟨sums, sums', hsums, hnew, hfields⟩ : ∃ sums sums',
      List.Forall₂ (IsSum (membersOf spec seen (fieldsAt spec.group row))) spec.sums sums ∧
      Group.addSummands row spec.sums sums = .ok sums' ∧
      (fieldsAt spec.group row ∉ seen.map (fieldsAt spec.group) →
        ∀ i ∈ spec.shown, i < row.width) := by
    rcases addToGroups_cases hadd with ⟨before, g, after, g', rfl, hg, hg', rfl⟩ |
      ⟨hnot, shown, g', hshown, hg', rfl⟩
    · have hmem : g ∈ before ++ g :: after := List.mem_append_right _ (List.mem_cons_self ..)
      refine ⟨g.sums, g'.sums, h.sums_of_mem hmem (hg ▸ hkey), (add_eq_ok hg').2.2, ?_⟩
      intro hnot
      exact absurd (hg ▸ List.mem_map_of_mem hmem) ((h.not_mem_keys hkey).mpr hnot)
    · exact ⟨spec.zeros, g'.sums, h.sums_of_not_mem hnot hkey, (add_eq_ok hg').2.2,
        fun _ => exists_pick_iff.mp ⟨shown, hshown⟩⟩
  intro hstop
  cases hstop with
  | key hi hmissing => exact absurd (hwidth _ hi) (Nat.not_lt.mpr hmissing)
  | shown hfirst hi hmissing => exact absurd (hfields hfirst _ hi) (Nat.not_lt.mpr hmissing)
  | summand ht hvalue =>
    obtain ⟨k, hk⟩ := (addSummands_eq_ok hsums hnew ht).1
    rw [hvalue] at hk
    cases hk
  | range ht hsum hfit =>
    rw [membersOf_concat_self] at hsum
    rw [(addSummands_eq_ok hsums hnew ht).2 _ hsum] at hfit
    cases hfit

/-! ### First rows -/

/-- That each group shows fields of its first row. -/
def Firsts (spec : GroupSpec) (rows : List Row) (groups : List Group) : Prop :=
  ∀ g ∈ groups, ∃ first rest, membersOf spec rows (g.key.map some) = first :: rest ∧
    first.pick spec.shown = .ok ⟨g.shown⟩

theorem first_concat {k : List (Option String)} {first : Row} {rest : List Row}
    (h : membersOf spec rows k = first :: rest) :
    ∃ rest', membersOf spec (rows ++ [row]) k = first :: rest' := by
  rw [membersOf_concat, h]
  split
  · exact ⟨rest ++ [row], rfl⟩
  · exact ⟨rest, rfl⟩

theorem Firsts.step (hfirsts : Firsts spec rows groups) (h : Summary spec rows groups)
    (hadd : spec.addRow groups row = .ok out) : Firsts spec (rows ++ [row]) out := by
  have hold : ∀ g ∈ groups, ∃ first rest,
      membersOf spec (rows ++ [row]) (g.key.map some) = first :: rest ∧
        first.pick spec.shown = .ok ⟨g.shown⟩ := by
    intro g hg
    obtain ⟨first, rest, hmembers, hshown⟩ := hfirsts g hg
    obtain ⟨rest', hmembers'⟩ : ∃ rest',
        membersOf spec (rows ++ [row]) (g.key.map some) = first :: rest' := first_concat hmembers
    exact ⟨first, rest', hmembers', hshown⟩
  obtain ⟨picked, hpicked, hadd⟩ := bind_eq_ok_iff.mp hadd
  have hkey := fieldsAt_of_pick hpicked
  intro u hu
  rcases addToGroups_cases hadd with ⟨before, g, after, g', rfl, hg, hg', rfl⟩ |
    ⟨hnot, shown, g', hshown, hg', rfl⟩
  · obtain ⟨hgkey, hgshown, -⟩ := add_eq_ok hg'
    rcases List.mem_append.mp hu with hu | hu
    · exact hold u (List.mem_append_left _ hu)
    · rcases List.mem_cons.mp hu with rfl | hu
      · rw [hgkey, hgshown]
        exact hold g (List.mem_append_right _ (List.mem_cons_self ..))
      · exact hold u (List.mem_append_right _ (List.mem_cons_of_mem _ hu))
  · obtain ⟨hgkey, hgshown, -⟩ := add_eq_ok hg'
    rcases List.mem_append.mp hu with hu | hu
    · exact hold u hu
    · obtain rfl := List.mem_singleton.mp hu
      refine ⟨row, [], ?_, hgshown ▸ hshown⟩
      rw [hgkey, hkey, membersOf_concat_self, ← hkey, h.membersOf_eq_nil hnot, List.nil_append]

/-! ### Runs -/

/-- That no row of a list stops grouping, when it comes after the rows before it. -/
def GroupSpec.Takes (spec : GroupSpec) (rows : List Row) : Prop :=
  ∀ before row after, rows = before ++ row :: after → ∀ e, ¬ spec.Stops before row e

theorem takes_concat (h : spec.Takes rows) (hrow : ∀ e, ¬ spec.Stops rows row e) :
    spec.Takes (rows ++ [row]) := by
  intro before r after heq e
  rcases List.eq_nil_or_concat' after with rfl | ⟨after, last, rfl⟩
  · obtain ⟨rfl, hlast⟩ := List.append_inj' heq rfl
    obtain rfl := List.singleton_inj.mp hlast
    exact hrow e
  · rw [← List.cons_append, ← List.append_assoc] at heq
    obtain ⟨hrows, -⟩ := List.append_inj' heq rfl
    exact h before r after hrows e

/-- What is known of the groups of rows that have been taken. -/
structure Taken (spec : GroupSpec) (rows : List Row) (groups : List Group) : Prop where
  summary : Summary spec rows groups
  firsts : Firsts spec rows groups
  takes : spec.Takes rows

theorem taken_nil (spec : GroupSpec) : Taken spec [] [] where
  summary := summary_nil spec
  firsts := by
    intro g hg
    cases hg
  takes := by
    intro before row after h
    simp at h

theorem Taken.step (h : Taken spec rows groups)
    (hadd : spec.addRow groups row = .ok out) : Taken spec (rows ++ [row]) out where
  summary := h.summary.step hadd
  firsts := h.firsts.step h.summary hadd
  takes := takes_concat h.takes fun _ => h.summary.not_stops_of_ok hadd

theorem taken_of_foldlM (hfold : rows.foldlM spec.addRow [] = .ok groups) :
    Taken spec rows groups := by
  have hstep : ∀ seen groups row groups', Taken spec seen groups →
      spec.addRow groups row = .ok groups' → Taken spec (seen ++ [row]) groups' :=
    fun _ _ _ _ h hadd => h.step hadd
  exact kept_of_foldlM hstep (taken_nil spec) hfold

/-- A run that fails: it has taken the rows before the one that stops it. -/
theorem stops_of_foldlM (hfold : rows.foldlM spec.addRow [] = .error e) :
    ∃ before row after, rows = before ++ row :: after ∧ spec.Takes before ∧
      spec.Stops before row e := by
  obtain ⟨before, row, after, groups, hrows, hbefore, herror⟩ := exists_of_foldlM_eq_error hfold
  have htaken := taken_of_foldlM hbefore
  exact ⟨before, row, after, hrows, htaken.takes, htaken.summary.stops_of_error herror⟩

theorem grouped_of_summary (h : Summary spec rows groups) (hfirsts : Firsts spec rows groups) :
    spec.Grouped rows (spec.rows groups) := by
  have hempty : (groups.isEmpty && spec.group.isEmpty && spec.shown.isEmpty) = true ↔
      rows = [] ∧ spec.group = [] ∧ spec.shown = [] := by
    rw [Bool.and_eq_true, Bool.and_eq_true, List.isEmpty_iff, List.isEmpty_iff, List.isEmpty_iff,
      h.eq_nil_iff, and_assoc]
  unfold GroupSpec.Grouped GroupSpec.rows
  by_cases hzero : rows = [] ∧ spec.group = [] ∧ spec.shown = []
  · rw [if_pos hzero, if_pos (hempty.mpr hzero), Group.toRow, GroupSpec.zeros, List.map_replicate,
      List.map_const', List.nil_append]
  · rw [if_neg hzero, if_neg fun he => hzero (hempty.mp he), ← h.keys, List.forall₂_map_left_iff,
      List.forall₂_map_right_iff, List.forall₂_same]
    intro g hg
    obtain ⟨first, rest, hmembers, hshown⟩ := hfirsts g hg
    exact ⟨first, rest, ⟨g.shown⟩, g.sums, hmembers, hshown, (h.totals g hg).sums, rfl⟩

/-- What grouping makes of rows: those of the groups, or the reason why a row stops it. -/
theorem gatheredRows_grouping_cases (spec : GroupSpec) (rows : List Row) :
    (∃ out, gatheredRows (grouping spec) (.ofList rows) = .ok out ∧ spec.Grouped rows out ∧
      spec.Takes rows) ∨
    ∃ e before row after, gatheredRows (grouping spec) (.ofList rows) = .error e ∧
      rows = before ++ row :: after ∧ spec.Takes before ∧ spec.Stops before row e := by
  have hgather : gatheredRows (grouping spec) (.ofList rows) =
      (rows.foldlM spec.addRow [] >>= fun groups => .ok (spec.rows groups)) :=
    gatheredRows_ofList (grouping spec) rows
  rw [hgather]
  cases hfold : rows.foldlM spec.addRow [] with
  | ok groups =>
    left
    have htaken := taken_of_foldlM hfold
    exact ⟨_, rfl, grouped_of_summary htaken.summary htaken.firsts, htaken.takes⟩
  | error e =>
    right
    obtain ⟨before, row, after, hrows, htakes, hstops⟩ := stops_of_foldlM hfold
    exact ⟨e, before, row, after, rfl, hrows, htakes, hstops⟩

/-! ### Grouping machines -/

/-- **Groups and their exact sums.**  Let the input drain to some rows.  A grouping machine supplies
one row for each group, with the exact sums over its rows, or fails on the first call.  It fails
exactly if some row stops it when it comes after the rows before it, and the error is the reason
that the first such row gives. -/
theorem supplies_grouping {σ : Type} {m : Machine σ} {fs : Files} {x : σ} {rows : List Row}
    (h : m.yield fs x = .ofList rows) (spec : GroupSpec) :
    (∀ out, (gathered m (grouping spec)).Supplies fs ⟨x, .pending⟩ out → spec.Grouped rows out) ∧
    ((∃ out, (gathered m (grouping spec)).Supplies fs ⟨x, .pending⟩ out) ∨
      ∃ e, ((gathered m (grouping spec)).next fs ⟨x, .pending⟩).1 = .error e) ∧
    ((∃ e, ((gathered m (grouping spec)).next fs ⟨x, .pending⟩).1 = .error e) ↔
      ∃ before row after e, rows = before ++ row :: after ∧ spec.Stops before row e) ∧
    ∀ e, ((gathered m (grouping spec)).next fs ⟨x, .pending⟩).1 = .error e →
      ∃ before row after, rows = before ++ row :: after ∧ spec.Takes before ∧
        spec.Stops before row e := by
  simp only [Machine.supplies_gathered_iff h, Machine.refuses_gathered_iff h]
  rcases gatheredRows_grouping_cases spec rows with ⟨out, hout, hgrouped, htakes⟩ |
    ⟨e, before, row, after, herror, hrows, htakes, hstops⟩
  · simp only [hout]
    refine ⟨?_, .inl ⟨out, rfl⟩, ?_, ?_⟩
    · intro out' hout'
      exact Except.ok.inj hout' ▸ hgrouped
    · constructor
      · rintro ⟨e, he⟩
        cases he
      · rintro ⟨before, row, after, e, hrows, hstops⟩
        exact absurd hstops (htakes before row after hrows e)
    · intro e he
      cases he
  · simp only [herror]
    refine ⟨?_, .inr ⟨e, rfl⟩, ?_, ?_⟩
    · intro out hout
      cases hout
    · exact iff_of_true ⟨e, rfl⟩ ⟨before, row, after, e, hrows, hstops⟩
    · intro e' he'
      cases he'
      exact ⟨before, row, after, hrows, htakes, hstops⟩

namespace Sample

def gradeRows : List Row :=
  [⟨["1", "Art", "3", "2"]⟩, ⟨["2", "Law", "1", "1"]⟩, ⟨["1", "Law", "-9", "1"]⟩]

/-- For each pupil the subject of the first grade, the weighted marks and the marks. -/
def gradeSums : GroupSpec where
  group := [0]
  shown := [1]
  sums := [.binary (.field 2 "mark") .times (.field 3 "weight"), .field 2 "mark"]

end Sample

/-- Two groups, the first with two rows. -/
theorem supplies_grouping_sample :
    ((listed Sample.gradeRows).yield Sample.files Sample.gradeRows = .ofList Sample.gradeRows ∧
      (gathered (listed Sample.gradeRows) (grouping Sample.gradeSums)).Supplies Sample.files
        ⟨Sample.gradeRows, .pending⟩ [⟨["Art", "-3", "-6"]⟩, ⟨["Law", "1", "1"]⟩]) ∧
    Sample.gradeSums.Grouped Sample.gradeRows [⟨["Art", "-3", "-6"]⟩, ⟨["Law", "1", "1"]⟩] := by
  have hinput := yield_listed Sample.gradeRows Sample.files Sample.gradeRows
  have hout : (gathered (listed Sample.gradeRows) (grouping Sample.gradeSums)).Supplies Sample.files
      ⟨Sample.gradeRows, .pending⟩ [⟨["Art", "-3", "-6"]⟩, ⟨["Law", "1", "1"]⟩] :=
    (Machine.supplies_gathered_iff hinput).mpr (by decide +kernel)
  exact ⟨⟨hinput, hout⟩, (supplies_grouping hinput Sample.gradeSums).1 _ hout⟩

end FlatQuery.Rows
