import FlatQuery.Proofs.Rows.GroupSums
import FlatQuery.Proofs.Rows.Rearranged
import Mathlib.Algebra.BigOperators.Group.List.Basic
import Mathlib.Algebra.Order.BigOperators.Group.List

/-!
# Sums of rows in another order

The exact sum of a term does not depend on the order of the rows (`IsSum.perm`), but sums are checked
after every row, and the order decides which sums those are.  So grouping rows succeeds if every row
is complete (`GroupSpec.Complete`), whatever the order, and if no sum on the way leaves the range
(`GroupSpec.RunsFit`), which may be so in the one order and not in the other
(`grouping_depends_on_order`).  Terms whose values in a group have one sign are different: then it
is enough that the exact sums fit (`GroupSpec.runsFit_iff_totalsFit`).
-/

namespace FlatQuery.Rows

open Outcome

/-! ### Sums -/

section Sums

variable {members members' : List Row} {t : Term} {n : Int}

/-- The sum of a term does not depend on the order of the rows. -/
theorem IsSum.perm (hp : members.Perm members') (h : IsSum members t n) : IsSum members' t n := by
  obtain ⟨ns, hns, rfl⟩ := h
  obtain ⟨ns', hns', hperm⟩ := List.perm_comp_forall₂ hp.symm hns
  exact ⟨ns', hns', hperm.sum_eq.symm⟩

theorem exists_isSum (h : ∀ r ∈ members, ∃ n, t.summand r = .ok n) : ∃ n, IsSum members t n := by
  obtain ⟨ns, hns⟩ := exists_mapM_iff.mpr h
  exact ⟨ns.sum, ns, mapM_eq_ok_iff.mp hns, rfl⟩

theorem IsSum.of_append (h : IsSum (members ++ members') t n) :
    ∃ a b, IsSum members t a ∧ IsSum members' t b ∧ n = a + b := by
  obtain ⟨ns, hns, rfl⟩ := h
  have htake := (List.forall₂_take_append ns members members' hns.flip).flip
  have hdrop := (List.forall₂_drop_append ns members members' hns.flip).flip
  refine ⟨_, _, ⟨_, htake, rfl⟩, ⟨_, hdrop, rfl⟩, ?_⟩
  rw [← List.sum_append, List.take_append_drop]

theorem IsSum.exists_values (h : IsSum members t n) :
    ∃ ns : List Int, n = ns.sum ∧ ∀ k ∈ ns, ∃ r ∈ members, t.summand r = .ok k := by
  obtain ⟨ns, hns, rfl⟩ := h
  refine ⟨ns, rfl, ?_⟩
  intro k hk
  exact (mem_iff_of_mapM (mapM_eq_ok_iff.mpr hns)).mp hk

theorem IsSum.nonneg (h : IsSum members t n)
    (hsign : ∀ r ∈ members, ∀ k, t.summand r = .ok k → 0 ≤ k) : 0 ≤ n := by
  obtain ⟨ns, rfl, hns⟩ := h.exists_values
  apply List.sum_nonneg
  intro k hk
  obtain ⟨r, hr, hvalue⟩ := hns k hk
  exact hsign r hr k hvalue

theorem IsSum.nonpos (h : IsSum members t n)
    (hsign : ∀ r ∈ members, ∀ k, t.summand r = .ok k → k ≤ 0) : n ≤ 0 := by
  obtain ⟨ns, rfl, hns⟩ := h.exists_values
  have hle : ns.sum ≤ ns.length • (0 : Int) := by
    apply List.sum_le_card_nsmul
    intro k hk
    obtain ⟨r, hr, hvalue⟩ := hns k hk
    exact hsign r hr k hvalue
  rwa [nsmul_zero] at hle

/-- That the sums of a term on the way through some rows are in range, after each of the rows. -/
def RunFits (t : Term) (members : List Row) : Prop :=
  ∀ sofar, sofar <+: members → ∀ n, IsSum sofar t n → Integer.fits n = true

/-- That the values of a term on some rows have one sign. -/
def OneSign (t : Term) (members : List Row) : Prop :=
  (∀ r ∈ members, ∀ n, t.summand r = .ok n → 0 ≤ n) ∨
    ∀ r ∈ members, ∀ n, t.summand r = .ok n → n ≤ 0

theorem OneSign.perm (hp : members.Perm members') (h : OneSign t members) :
    OneSign t members' := by
  rcases h with h | h
  · exact .inl fun r hr => h r (hp.mem_iff.mpr hr)
  · exact .inr fun r hr => h r (hp.mem_iff.mpr hr)

/-- A sum of values of one sign is in range if it is so once all values have been added: the sums on
the way lie between 0 and it. -/
theorem OneSign.runFits (hsign : OneSign t members) (hsum : IsSum members t n)
    (hfit : Integer.fits n = true) : RunFits t members := by
  rintro sofar ⟨rest, rfl⟩ k hk
  obtain ⟨a, b, ha, hb, rfl⟩ := hsum.of_append
  obtain rfl := hk.unique ha
  simp only [Integer.fits, Bool.and_eq_true, decide_eq_true_eq] at hfit ⊢
  rcases hsign with hsign | hsign
  · have hk0 := hk.nonneg fun r hr => hsign r (List.mem_append_left rest hr)
    have hb0 := hb.nonneg fun r hr => hsign r (List.mem_append_right sofar hr)
    omega
  · have hk0 := hk.nonpos fun r hr => hsign r (List.mem_append_left rest hr)
    have hb0 := hb.nonpos fun r hr => hsign r (List.mem_append_right sofar hr)
    omega

end Sums

/-- The value of a term is never refused for a sum: only products are computed for it. -/
theorem summand_ne_sumOverflow (t u : Term) (r : Row) : t.summand r ≠ .error (.sumOverflow u) := by
  have hinteger : ∀ field, Row.integer field ≠ .error (.sumOverflow u) := by
    intro field h
    unfold Row.integer at h
    split at h
    · cases h
    · cases h
  induction t with
  | literal v =>
    cases v with
    | integer n => exact fun h => nomatch h
    | string field => exact hinteger field
  | field i label =>
    intro h
    rcases bind_eq_error_iff.mp h with hget | ⟨field, -, hvalue⟩
    · unfold Row.get at hget
      split at hget
      · cases hget
      · cases hget
    · exact hinteger field hvalue
  | binary left op right ihl ihr =>
    intro h
    cases op with
    | times =>
      rw [Term.summand] at h
      rcases bind_eq_error_iff.mp h with hl | ⟨a, -, h⟩
      · exact ihl hl
      · rcases bind_eq_error_iff.mp h with hr | ⟨b, -, h⟩
        · exact ihr hr
        · split at h
          · cases h
          · cases h
    | _ => cases h
  | nested t ih => exact ih
  | call text =>
    intro h
    cases h

/-! ### Rows that can be grouped -/

namespace GroupSpec

/-- That a row has the fields that are grouped by and shown, and that every term has a value on it. -/
structure Complete (spec : GroupSpec) (row : Row) : Prop where
  group : ∀ i ∈ spec.group, i < row.width
  shown : ∀ i ∈ spec.shown, i < row.width
  sums : ∀ t ∈ spec.sums, ∃ n, t.summand row = .ok n

/-- That rows of one group agree in the fields shown. -/
def Determined (spec : GroupSpec) (rows : List Row) : Prop :=
  ∀ r ∈ rows, ∀ r' ∈ rows, fieldsAt spec.group r = fieldsAt spec.group r' →
    fieldsAt spec.shown r = fieldsAt spec.shown r'

/-- That the sums of every group are in range after each of its rows. -/
def RunsFit (spec : GroupSpec) (rows : List Row) : Prop :=
  ∀ key, ∀ t ∈ spec.sums, RunFits t (membersOf spec rows key)

/-- That the exact sums of every group are in range. -/
def TotalsFit (spec : GroupSpec) (rows : List Row) : Prop :=
  ∀ key, ∀ t ∈ spec.sums, ∀ n, IsSum (membersOf spec rows key) t n → Integer.fits n = true

/-- That the values of each term have one sign in every group. -/
def OneSigned (spec : GroupSpec) (rows : List Row) : Prop :=
  ∀ key, ∀ t ∈ spec.sums, OneSign t (membersOf spec rows key)

variable {spec : GroupSpec} {rows rows' : List Row}

theorem determined_of_subset (h : spec.shown ⊆ spec.group) (rows : List Row) :
    spec.Determined rows := by
  intro r _ r' _ hkey
  unfold fieldsAt at hkey ⊢
  rw [List.map_inj_left] at hkey ⊢
  exact fun i hi => hkey i (h hi)

theorem Determined.perm (hp : rows.Perm rows') (h : spec.Determined rows) :
    spec.Determined rows' := by
  intro r hr r' hr'
  exact h r (hp.mem_iff.mpr hr) r' (hp.mem_iff.mpr hr')

theorem membersOf_perm (hp : rows.Perm rows') (spec : GroupSpec) (key : List (Option String)) :
    (membersOf spec rows key).Perm (membersOf spec rows' key) :=
  hp.filter _

theorem TotalsFit.perm (hp : rows.Perm rows') (h : spec.TotalsFit rows) :
    spec.TotalsFit rows' := by
  intro key t ht n hn
  exact h key t ht n (hn.perm (membersOf_perm hp spec key).symm)

theorem OneSigned.perm (hp : rows.Perm rows') (h : spec.OneSigned rows) :
    spec.OneSigned rows' := by
  intro key t ht
  exact (h key t ht).perm (membersOf_perm hp spec key)

theorem exists_total (hcomplete : ∀ r ∈ rows, spec.Complete r) {t : Term} (ht : t ∈ spec.sums)
    (key : List (Option String)) : ∃ n, IsSum (membersOf spec rows key) t n := by
  apply exists_isSum
  intro r hr
  exact (hcomplete r (List.mem_filter.mp hr).1).sums t ht

/-- If values have one sign in every group, only the exact sums matter. -/
theorem runsFit_iff_totalsFit (hcomplete : ∀ r ∈ rows, spec.Complete r)
    (hsign : spec.OneSigned rows) : spec.RunsFit rows ↔ spec.TotalsFit rows := by
  constructor
  · intro h key t ht n hn
    exact h key t ht _ (List.prefix_refl _) n hn
  · intro h key t ht
    obtain ⟨n, hn⟩ := exists_total hcomplete ht key
    exact (hsign key t ht).runFits hn (h key t ht n hn)

end GroupSpec

/-! ### What is taken -/

variable {spec : GroupSpec} {rows rows' out out' : List Row}

theorem lt_width_iff_of_fieldsAt {indexes : List Nat} {r r' : Row}
    (h : fieldsAt indexes r = fieldsAt indexes r') :
    (∀ i ∈ indexes, i < r.width) ↔ ∀ i ∈ indexes, i < r'.width := by
  unfold fieldsAt at h
  rw [List.map_inj_left] at h
  refine forall₂_congr ?_
  intro i hi
  unfold Row.width
  rw [← Nat.not_le, ← Nat.not_le, ← List.getElem?_eq_none_iff, ← List.getElem?_eq_none_iff, h i hi]

theorem exists_first (spec : GroupSpec) {r : Row} (hr : r ∈ rows) :
    ∃ before first after, rows = before ++ first :: after ∧
      fieldsAt spec.group first = fieldsAt spec.group r ∧
        fieldsAt spec.group first ∉ before.map (fieldsAt spec.group) := by
  obtain ⟨first, hfirst⟩ : ∃ first,
      rows.find? (fun r' => fieldsAt spec.group r' = fieldsAt spec.group r) = some first := by
    rw [← Option.isSome_iff_exists, List.find?_isSome]
    exact ⟨r, hr, decide_eq_true rfl⟩
  obtain ⟨hkey, before, after, hrows, hbefore⟩ := List.find?_eq_some_iff_append.mp hfirst
  have hkey' := of_decide_eq_true hkey
  refine ⟨before, first, after, hrows, hkey', ?_⟩
  intro hmem
  obtain ⟨r', hr', hsame⟩ := List.mem_map.mp hmem
  have hother := hbefore r' hr'
  simp [hsame, hkey'] at hother

/-- A sum that stops grouping is one on the way through the rows of its group. -/
theorem not_runFits_of_range {before after : List Row} {row : Row} {t : Term} {n : Int}
    {key : List (Option String)} (hrows : rows = before ++ row :: after)
    (hsum : IsSum (membersOf spec (before ++ [row]) key) t n) (hfit : Integer.fits n = false) :
    ¬ RunFits t (membersOf spec rows key) := by
  intro hruns
  have hrun : before ++ [row] <+: rows := ⟨after, by simp [hrows]⟩
  rw [hruns _ (hrun.filter _) _ hsum] at hfit
  cases hfit

/-- The sums on the way through the rows of a group are those after each row of all. -/
theorem fits_of_takes (htakes : spec.Takes rows) {t : Term} (ht : t ∈ spec.sums)
    (key : List (Option String)) (before : List Row) (hbefore : before <+: rows) (n : Int)
    (hn : IsSum (membersOf spec before key) t n) : Integer.fits n = true := by
  induction before using List.reverseRecOn with
  | nil =>
    obtain ⟨ns, hns, rfl⟩ := hn
    cases hns
    rfl
  | append_singleton before row ih =>
    by_cases hkey : fieldsAt spec.group row = key
    · by_contra hfit
      obtain ⟨after, hrows⟩ := hbefore
      rw [List.append_assoc, List.singleton_append] at hrows
      rw [← hkey] at hn
      have hstops : spec.Stops before row (.sumOverflow t) :=
        .range ht hn (Bool.eq_false_iff.mpr hfit)
      exact htakes before row after hrows.symm _ hstops
    · rw [membersOf_concat, if_neg hkey] at hn
      exact ih ((List.prefix_append before [row]).trans hbefore) hn

/-- Rows that are taken are complete; what is shown need only be there in the first row of a group,
which the others of the group agree with. -/
theorem complete_of_takes (hdet : spec.Determined rows) (htakes : spec.Takes rows) {r : Row}
    (hr : r ∈ rows) : spec.Complete r := by
  obtain ⟨before, after, hrows⟩ := List.append_of_mem hr
  refine ⟨?_, ?_, ?_⟩
  · intro i hi
    by_contra hmissing
    exact htakes before r after hrows _ (.key hi (Nat.not_lt.mp hmissing))
  · obtain ⟨before', first, after', hrows', hkey, hfirst⟩ := exists_first spec hr
    have hmem : first ∈ rows := by simp [hrows']
    rw [← lt_width_iff_of_fieldsAt (hdet first hmem r hr hkey)]
    intro i hi
    by_contra hmissing
    exact htakes before' first after' hrows' _ (.shown hfirst hi (Nat.not_lt.mp hmissing))
  · intro t ht
    cases hvalue : t.summand r with
    | error e => exact absurd (.summand ht hvalue) (htakes before r after hrows e)
    | ok n => exact ⟨n, rfl⟩

/-- **What grouping takes.**  Every row must be complete, in whatever order they come, and the sums
on the way must fit. -/
theorem takes_iff (hdet : spec.Determined rows) :
    spec.Takes rows ↔ (∀ r ∈ rows, spec.Complete r) ∧ spec.RunsFit rows := by
  constructor
  · intro htakes
    refine ⟨fun r hr => complete_of_takes hdet htakes hr, ?_⟩
    intro key t ht sofar hsofar n hn
    obtain ⟨before, hbefore, rfl⟩ := List.prefix_filter_iff.mp hsofar
    exact fits_of_takes htakes ht key before hbefore n hn
  · rintro ⟨hcomplete, hfits⟩ before row after hrows e hstops
    have hmem : row ∈ rows := by simp [hrows]
    have hrow := hcomplete row hmem
    cases hstops with
    | key hi hmissing => exact absurd (hrow.group _ hi) (Nat.not_lt.mpr hmissing)
    | shown _ hi hmissing => exact absurd (hrow.shown _ hi) (Nat.not_lt.mpr hmissing)
    | summand ht hvalue =>
      obtain ⟨n, hn⟩ := hrow.sums _ ht
      rw [hn] at hvalue
      cases hvalue
    | range ht hsum hfit => exact not_runFits_of_range hrows hsum hfit (hfits _ _ ht)

theorem exists_grouped_iff (hdet : spec.Determined rows) :
    (∃ out, gatheredRows (grouping spec) (.ofList rows) = .ok out) ↔
      (∀ r ∈ rows, spec.Complete r) ∧ spec.RunsFit rows := by
  rw [← takes_iff hdet]
  rcases gatheredRows_grouping_cases spec rows with ⟨out, hout, -, htakes⟩ |
    ⟨e, before, row, after, herror, hrows, -, hstops⟩
  · exact iff_of_true ⟨out, hout⟩ htakes
  · refine iff_of_false ?_ ?_
    · rintro ⟨out, hout⟩
      cases herror.symm.trans hout
    · intro htakes
      exact htakes before row after hrows e hstops

/-! ### What is handed out -/

theorem grouped_of_gatheredRows
    (h : gatheredRows (grouping spec) (.ofList rows) = .ok out) : spec.Grouped rows out := by
  rcases gatheredRows_grouping_cases spec rows with ⟨out', hout', hgrouped, -⟩ |
    ⟨e, before, row, after, herror, -⟩
  · exact Except.ok.inj (hout'.symm.trans h) ▸ hgrouped
  · cases herror.symm.trans h

/-- A group whose rows agree in what is shown gives one row only, in whatever order they come. -/
theorem RowOf.unique {members members' : List Row} {o o' : Row} (hp : members.Perm members')
    (hdet : ∀ r ∈ members, ∀ r' ∈ members, fieldsAt spec.shown r = fieldsAt spec.shown r')
    (h : spec.RowOf members o) (h' : spec.RowOf members' o') : o = o' := by
  obtain ⟨first, rest, shown, sums, rfl, hshown, hsums, hfields⟩ := h
  obtain ⟨first', rest', shown', sums', rfl, hshown', hsums', hfields'⟩ := h'
  have hsame : shown.fields = shown'.fields := by
    rw [← map_some_inj, fieldsAt_of_pick hshown, fieldsAt_of_pick hshown']
    exact hdet first (List.mem_cons_self ..) first' (hp.mem_iff.mpr (List.mem_cons_self ..))
  have htotals : sums = sums' := by
    have hsums'' : List.Forall₂ (IsSum (first :: rest)) spec.sums sums' :=
      hsums'.imp fun _ _ hn => hn.perm hp.symm
    exact List.right_unique_forall₂' (fun _ _ _ hn hk => hn.unique hk) hsums hsums''
  obtain ⟨fields⟩ := o
  obtain ⟨fields'⟩ := o'
  obtain rfl : fields = shown.fields ++ sums.map Integer.toText := hfields
  obtain rfl : fields' = shown'.fields ++ sums'.map Integer.toText := hfields'
  rw [hsame, htotals]

/-- Rows that come in another order give the same rows, in some order. -/
theorem Grouped.perm (hp : rows.Perm rows') (hdet : spec.Determined rows)
    (h : spec.Grouped rows out) (h' : spec.Grouped rows' out') : out.Perm out' := by
  have hzero : (rows = [] ∧ spec.group = [] ∧ spec.shown = []) ↔
      rows' = [] ∧ spec.group = [] ∧ spec.shown = [] := by
    refine and_congr_left fun _ => ?_
    constructor
    · rintro rfl
      exact hp.nil_eq.symm
    · rintro rfl
      exact hp.eq_nil
  unfold GroupSpec.Grouped at h h'
  by_cases hempty : rows = [] ∧ spec.group = [] ∧ spec.shown = []
  · rw [if_pos hempty] at h
    rw [if_pos (hzero.mp hempty)] at h'
    rw [h, h']
  · rw [if_neg hempty] at h
    rw [if_neg fun he => hempty (hzero.mpr he)] at h'
    refine perm_of_forall₂ (eraseDups_perm (hp.map _)) h h' ?_
    intro key _ o o' ho ho'
    refine RowOf.unique (GroupSpec.membersOf_perm hp spec key) ?_ ho ho'
    intro r hr r' hr'
    obtain ⟨hr, hkey⟩ := List.mem_filter.mp hr
    obtain ⟨hr', hkey'⟩ := List.mem_filter.mp hr'
    exact hdet r hr r' hr' ((of_decide_eq_true hkey).trans (of_decide_eq_true hkey').symm)

/-! ### Two machines -/

section Machines

variable {σ τ : Type} {m : Machine σ} {m' : Machine τ} {fs fs' : Files} {x : σ} {x' : τ}

/-- A sum is reported only if one on the way through the rows of a group is out of range. -/
theorem not_runFits_of_sumOverflow {t : Term}
    (h : gatheredRows (grouping spec) (.ofList rows) = .error (.sumOverflow t)) :
    ∃ key ∈ rows.map (fieldsAt spec.group), ¬ RunFits t (membersOf spec rows key) := by
  rcases gatheredRows_grouping_cases spec rows with ⟨out, hout, -, -⟩ |
    ⟨e, before, row, after, herror, hrows, -, hstops⟩
  · cases h.symm.trans hout
  · obtain rfl := Except.error.inj (h.symm.trans herror)
    cases hstops with
    | summand ht hvalue => exact absurd hvalue (summand_ne_sumOverflow _ t row)
    | range ht hsum hfit =>
      have hmem : row ∈ rows := by simp [hrows]
      exact ⟨_, List.mem_map_of_mem hmem, not_runFits_of_range hrows hsum hfit⟩

/-- **Grouping rows in another order.**  Let two inputs drain to the same rows in different orders,
and let rows of one group agree in what is shown.  Grouping succeeds on either input exactly if all
rows are complete and the sums on the way through its groups fit, in the order of that input; where
the values of each term have one sign in every group, it succeeds on both or on neither.  The rows
handed out are then the same in some order.  A sum is reported only if one on the way through the rows
of some group does not fit, and if the values there have one sign, the exact sum does not. -/
theorem supplies_grouping_perm (h : m.yield fs x = .ofList rows)
    (h' : m'.yield fs' x' = .ofList rows') (hp : rows.Perm rows') (hdet : spec.Determined rows) :
    ((∃ out, (gathered m (grouping spec)).Supplies fs ⟨x, .pending⟩ out) ↔
      (∀ r ∈ rows, spec.Complete r) ∧ spec.RunsFit rows) ∧
    ((∃ out, (gathered m' (grouping spec)).Supplies fs' ⟨x', .pending⟩ out) ↔
      (∀ r ∈ rows, spec.Complete r) ∧ spec.RunsFit rows') ∧
    (spec.OneSigned rows →
      ((∃ out, (gathered m (grouping spec)).Supplies fs ⟨x, .pending⟩ out) ↔
        ∃ out, (gathered m' (grouping spec)).Supplies fs' ⟨x', .pending⟩ out)) ∧
    (∀ out out', (gathered m (grouping spec)).Supplies fs ⟨x, .pending⟩ out →
      (gathered m' (grouping spec)).Supplies fs' ⟨x', .pending⟩ out' → out.Perm out') ∧
    ∀ t, ((gathered m (grouping spec)).next fs ⟨x, .pending⟩).1 = .error (.sumOverflow t) →
      ∃ key ∈ rows.map (fieldsAt spec.group), ¬ RunFits t (membersOf spec rows key) ∧
        (OneSign t (membersOf spec rows key) →
          (∀ r ∈ membersOf spec rows key, ∃ n, t.summand r = .ok n) →
            ∃ n, IsSum (membersOf spec rows key) t n ∧ Integer.fits n = false) := by
  have hcomplete : (∀ r ∈ rows', spec.Complete r) ↔ ∀ r ∈ rows, spec.Complete r := by
    simp only [hp.mem_iff]
  have hsuccess := exists_grouped_iff hdet
  have hsuccess' := exists_grouped_iff (hdet.perm hp)
  rw [hcomplete] at hsuccess'
  simp only [Machine.supplies_gathered_iff h, Machine.supplies_gathered_iff h',
    Machine.refuses_gathered_iff h]
  refine ⟨hsuccess, hsuccess', ?_, ?_, ?_⟩
  · intro hsign
    rw [hsuccess, hsuccess']
    refine and_congr_right ?_
    intro hall
    rw [GroupSpec.runsFit_iff_totalsFit hall hsign,
      GroupSpec.runsFit_iff_totalsFit (hcomplete.mpr hall) (hsign.perm hp)]
    exact ⟨fun hfits => hfits.perm hp, fun hfits => hfits.perm hp.symm⟩
  · intro out out' hout hout'
    exact Grouped.perm hp hdet (grouped_of_gatheredRows hout) (grouped_of_gatheredRows hout')
  · intro t ht
    obtain ⟨key, hkey, hruns⟩ := not_runFits_of_sumOverflow ht
    refine ⟨key, hkey, hruns, ?_⟩
    intro hsign hvalues
    obtain ⟨n, hn⟩ := exists_isSum hvalues
    refine ⟨n, hn, ?_⟩
    by_contra hfit
    exact hruns (hsign.runFits hn (Bool.not_eq_false _ ▸ hfit))

namespace Sample

def regradedRows : List Row :=
  [⟨["2", "Law", "1", "1"]⟩, ⟨["1", "Law", "-9", "1"]⟩, ⟨["1", "Art", "3", "2"]⟩]

/-- For each pupil the number of the pupil and the marks. -/
def pupilSums : GroupSpec where
  group := [0]
  shown := [0]
  sums := [.field 2 "mark"]

/-- A number that is as large as can be, and two that add up to nothing. -/
def peakRows : List Row :=
  [⟨["9223372036854775807"]⟩, ⟨["1"]⟩, ⟨["-1"]⟩]

def levelRows : List Row :=
  [⟨["1"]⟩, ⟨["-1"]⟩, ⟨["9223372036854775807"]⟩]

def numberSum : GroupSpec where
  group := []
  shown := []
  sums := [.field 0 "n"]

end Sample

/-- Grades by pupil, in two orders. -/
theorem supplies_grouping_perm_sample :
    ((listed Sample.gradeRows).yield Sample.files Sample.gradeRows = .ofList Sample.gradeRows ∧
      (listed Sample.regradedRows).yield Sample.files Sample.regradedRows =
        .ofList Sample.regradedRows ∧
      Sample.gradeRows.Perm Sample.regradedRows ∧
      Sample.pupilSums.Determined Sample.gradeRows) ∧
    (∀ r ∈ Sample.gradeRows, Sample.pupilSums.Complete r) ∧
    Sample.pupilSums.RunsFit Sample.regradedRows ∧
    [(⟨["1", "-6"]⟩ : Row), ⟨["2", "1"]⟩].Perm [⟨["2", "1"]⟩, ⟨["1", "-6"]⟩] := by
  have hinput := yield_listed Sample.gradeRows Sample.files Sample.gradeRows
  have hinput' := yield_listed Sample.regradedRows Sample.files Sample.regradedRows
  have hperm : Sample.gradeRows.Perm Sample.regradedRows := by decide
  have hdet : Sample.pupilSums.Determined Sample.gradeRows :=
    GroupSpec.determined_of_subset (List.Subset.refl _) Sample.gradeRows
  have hout : (gathered (listed Sample.gradeRows) (grouping Sample.pupilSums)).Supplies Sample.files
      ⟨Sample.gradeRows, .pending⟩ [⟨["1", "-6"]⟩, ⟨["2", "1"]⟩] :=
    (Machine.supplies_gathered_iff hinput).mpr (by decide +kernel)
  have hout' : (gathered (listed Sample.regradedRows) (grouping Sample.pupilSums)).Supplies
      Sample.files ⟨Sample.regradedRows, .pending⟩ [⟨["2", "1"]⟩, ⟨["1", "-6"]⟩] :=
    (Machine.supplies_gathered_iff hinput').mpr (by decide +kernel)
  obtain ⟨-, hsuccess', -, hsame, -⟩ := supplies_grouping_perm hinput hinput' hperm hdet
  obtain ⟨hcomplete, hruns⟩ := hsuccess'.mp ⟨_, hout'⟩
  exact ⟨⟨hinput, hinput', hperm, hdet⟩, hcomplete, hruns, hsame _ _ hout hout'⟩

/-- The order decides whether a sum is in range on the way: the largest number and 1 are out of range,
though 1 and -1 and the largest number are not. -/
theorem grouping_depends_on_order :
    Sample.peakRows.Perm Sample.levelRows ∧ Sample.numberSum.Determined Sample.peakRows ∧
    ((gathered (listed Sample.peakRows) (grouping Sample.numberSum)).next Sample.files
      ⟨Sample.peakRows, .pending⟩).1 = .error (.sumOverflow (.field 0 "n")) ∧
    (gathered (listed Sample.levelRows) (grouping Sample.numberSum)).Supplies Sample.files
      ⟨Sample.levelRows, .pending⟩ [⟨["9223372036854775807"]⟩] ∧
    IsSum Sample.peakRows (.field 0 "n") 9223372036854775807 ∧
    Integer.fits 9223372036854775807 = true := by
  have hinput := yield_listed Sample.peakRows Sample.files Sample.peakRows
  have hinput' := yield_listed Sample.levelRows Sample.files Sample.levelRows
  have hvalues : Sample.peakRows.mapM ((.field 0 "n" : Term).summand ·) =
      .ok [9223372036854775807, 1, -1] := by decide +kernel
  refine ⟨by decide, ?_, ?_, ?_, ?_, by decide⟩
  · exact GroupSpec.determined_of_subset (List.Subset.refl _) Sample.peakRows
  · exact (Machine.refuses_gathered_iff hinput).mpr (by decide +kernel)
  · exact (Machine.supplies_gathered_iff hinput').mpr (by decide +kernel)
  · exact ⟨_, mapM_eq_ok_iff.mp hvalues, rfl⟩

end Machines

end FlatQuery.Rows
