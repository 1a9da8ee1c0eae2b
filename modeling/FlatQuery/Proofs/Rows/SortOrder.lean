import FlatQuery.Proofs.Rows.Calls
import FlatQuery.Proofs.Rows.Rearranged
import FlatQuery.Proofs.Rows.Start
import FlatQuery.Proofs.Text.ByteOrder

/-!
# Sorted rows

Which row may stand before which (`Precedes`): the integers of the keys decide, each in its direction,
and where all tie, the bytes of the fields and then the number of fields.  Two rows that may stand
before one another are equal (`Precedes.antisymm`), though their keys tie as soon as they write the
same integers.  So rows can be put in order in one way only, and sorting finds it, in whatever order
the rows come (`supplies_sorting`).
-/

namespace FlatQuery.Rows

open Outcome Text

/-! ### The order of rows -/

/-- That fields may stand before others: the first difference decides, and fields come before those
that continue them. -/
def FieldsPrecede : List String → List String → Prop
  | [], _ => True
  | _ :: _, [] => False
  | s :: ss, t :: ts => bytesOf s < bytesOf t ∨ s = t ∧ FieldsPrecede ss ts

/-- That a row may stand before another: the first key whose integers differ decides, and the fields
if there is none. -/
def Precedes : List SortKey → Row → Row → Prop
  | [], a, b => FieldsPrecede a.fields b.fields
  | k :: ks, a, b => ∃ m n, k.integer? a = some m ∧ k.integer? b = some n ∧
      ((if k.ascending then m < n else n < m) ∨ m = n ∧ Precedes ks a b)

instance decidableFieldsPrecede : ∀ ss ts, Decidable (FieldsPrecede ss ts)
  | [], _ => isTrue trivial
  | _ :: _, [] => isFalse id
  | s :: ss, t :: ts =>
    have := decidableFieldsPrecede ss ts
    inferInstanceAs (Decidable (bytesOf s < bytesOf t ∨ s = t ∧ FieldsPrecede ss ts))

instance decidablePrecedes : ∀ ks a b, Decidable (Precedes ks a b)
  | [], a, b => decidableFieldsPrecede a.fields b.fields
  | k :: ks, a, b =>
    have := decidablePrecedes ks a b
    match ha : k.integer? a, hb : k.integer? b with
    | some m, some n =>
      decidable_of_iff ((if k.ascending then m < n else n < m) ∨ m = n ∧ Precedes ks a b)
        ⟨fun h => ⟨m, n, ha, hb, h⟩, by
          rintro ⟨m', n', ha', hb', h⟩
          cases ha.symm.trans ha'
          cases hb.symm.trans hb'
          exact h⟩
    | none, _ => isFalse (by rintro ⟨m, n, ha', -⟩; cases ha.symm.trans ha')
    | some _, none => isFalse (by rintro ⟨m, n, -, hb', -⟩; cases hb.symm.trans hb')

theorem FieldsPrecede.antisymm {ss ts : List String} (h : FieldsPrecede ss ts)
    (h' : FieldsPrecede ts ss) : ss = ts := by
  induction ss generalizing ts with
  | nil =>
    cases ts with
    | nil => rfl
    | cons t ts => cases h'
  | cons s ss ih =>
    cases ts with
    | nil => cases h
    | cons t ts =>
      rcases h with hlt | ⟨rfl, hrest⟩
      · rcases h' with hlt' | ⟨rfl, -⟩
        · exact absurd hlt' (List.lt_asymm hlt)
        · exact absurd hlt (List.lt_irrefl _)
      · rcases h' with hlt' | ⟨-, hrest'⟩
        · exact absurd hlt' (List.lt_irrefl _)
        · rw [ih hrest hrest']

theorem not_after_of_before {up : Bool} {m n : Int} (h : if up then m < n else n < m) :
    ¬ if up then n < m else m < n := by
  cases up with
  | true =>
    simp only [if_true] at h ⊢
    omega
  | false =>
    simp only [Bool.false_eq_true, if_false] at h ⊢
    omega

/-- Rows that may stand before one another are equal, not only their integers. -/
theorem Precedes.antisymm {ks : List SortKey} {a b : Row} (h : Precedes ks a b)
    (h' : Precedes ks b a) : a = b := by
  induction ks with
  | nil => exact congrArg Row.mk (FieldsPrecede.antisymm h h')
  | cons k ks ih =>
    obtain ⟨m, n, hm, hn, hdecide⟩ := h
    obtain ⟨n', m', hn', hm', hdecide'⟩ := h'
    obtain rfl := Option.some.inj (hm.symm.trans hm')
    obtain rfl := Option.some.inj (hn.symm.trans hn')
    rcases hdecide with hbefore | ⟨rfl, hrest⟩
    · rcases hdecide' with hafter | ⟨rfl, -⟩
      · exact absurd hafter (not_after_of_before hbefore)
      · exact absurd hbefore (not_after_of_before hbefore)
    · rcases hdecide' with hafter | ⟨-, hrest'⟩
      · exact absurd hafter (not_after_of_before hafter)
      · exact ih hrest hrest'

theorem isLE_compare_iff {ss ts : List String} :
    (compare ss ts).isLE = true ↔ FieldsPrecede ss ts := by
  induction ss generalizing ts with
  | nil =>
    cases ts with
    | nil => exact iff_of_true rfl trivial
    | cons t ts => exact iff_of_true rfl trivial
  | cons s ss ih =>
    cases ts with
    | nil =>
      refine iff_of_false ?_ id
      intro h
      cases h
    | cons t ts =>
      have hlt : compare s t = .lt ↔ bytesOf s < bytesOf t := by
        rw [← lt_iff_bytesOf_lt]
        exact compare_lt_iff_lt
      rw [List.compare_cons_cons, Ordering.isLE_then_iff_or, hlt, Std.compare_eq_iff_eq, ih]
      rfl

theorem precedes_of_inOrder {ks : List SortKey} {a b : Row} (h : InOrder ks a b) :
    Precedes ks a b := by
  induction ks with
  | nil => exact isLE_compare_iff.mp h
  | cons k ks ih =>
    obtain ⟨m, n, hm, hn, hdecide⟩ := h
    exact ⟨m, n, hm, hn, hdecide.imp_right fun hrest => ⟨hrest.1, ih hrest.2⟩⟩

/-! ### Sorting -/

variable {ks : List SortKey} {rows rows' out : List Row} {e : Error}

theorem SortKey.exists_value_iff {k : SortKey} {r : Row} :
    (∃ n, k.value r = .ok n) ↔ k.integer? r ≠ none := by
  have hvalue : (k.value r).toOption = k.integer? r := by
    simp only [SortKey.value, toOption_bind, Row.toOption_get, Row.toOption_integer]
    rfl
  rw [← hvalue]
  cases k.value r with
  | error e => simp
  | ok n => simp

/-- Rows can be sorted if every key of every row is an integer. -/
theorem exists_sortRows_iff :
    (∃ out, sortRows ks rows = .ok out) ↔ ∀ r ∈ rows, ∀ k ∈ ks, k.integer? r ≠ none := by
  have hrow : ∀ r, (∃ a, KeyedRow.ofRow ks r = .ok a) ↔ ∀ k ∈ ks, k.integer? r ≠ none := by
    intro r
    simp only [← SortKey.exists_value_iff, ← exists_mapM_iff]
    exact exists_bind_pure_iff
  simp only [← hrow, ← exists_mapM_iff]
  exact exists_bind_pure_iff

theorem exists_of_sortRows_eq_error (h : sortRows ks rows = .error e) :
    ∃ r ∈ rows, ∃ k ∈ ks, k.value r = .error e := by
  rcases bind_eq_error_iff.mp h with hkeyed | ⟨keyed, -, h⟩
  · obtain ⟨r, hr, hrow⟩ := exists_of_mapM_eq_error hkeyed
    rcases bind_eq_error_iff.mp hrow with hkeys | ⟨keys, -, hrow⟩
    · obtain ⟨k, hk, hvalue⟩ := exists_of_mapM_eq_error hkeys
      exact ⟨r, hr, k, hk, hvalue⟩
    · cases hrow
  · cases h

theorem eq_of_perm_of_pairwise (hp : rows.Perm rows') (h : rows.Pairwise (Precedes ks))
    (h' : rows'.Pairwise (Precedes ks)) : rows = rows' :=
  List.Perm.eq_of_pairwise (fun _ _ _ _ hab hba => hab.antisymm hba) h h' hp

/-! ### Sorting machines -/

/-- **Sorted rows.**  Let the input drain to some rows.  A sorting machine refuses the first call
exactly if a key of some row is missing or no integer, and the error is that of such a key.  Otherwise
it supplies the rows in order, which is the only order there is; and so does a machine whose input
drains to the same rows in another order. -/
theorem supplies_sorting {σ : Type} {m : Machine σ} {fs : Files} {x : σ}
    (h : m.yield fs x = .ofList rows) (ks : List SortKey) :
    ((∃ e, ((gathered m (sorting ks)).next fs ⟨x, .pending⟩).1 = .error e) ↔
      ∃ r ∈ rows, ∃ k ∈ ks, k.integer? r = none) ∧
    (∀ e, ((gathered m (sorting ks)).next fs ⟨x, .pending⟩).1 = .error e →
      ∃ r ∈ rows, ∃ k ∈ ks, k.value r = .error e) ∧
    ((∀ r ∈ rows, ∀ k ∈ ks, k.integer? r ≠ none) →
      ∃ out, (gathered m (sorting ks)).Supplies fs ⟨x, .pending⟩ out ∧ out.Perm rows ∧
        out.Pairwise (Precedes ks) ∧
        (∀ out', out'.Perm rows → out'.Pairwise (Precedes ks) → out' = out) ∧
        ∀ {τ : Type} {m' : Machine τ} {fs' : Files} {x' : τ} {rows' : List Row},
          m'.yield fs' x' = .ofList rows' → rows'.Perm rows →
            (gathered m' (sorting ks)).Supplies fs' ⟨x', .pending⟩ out) := by
  simp only [Machine.refuses_gathered_iff h, Machine.supplies_gathered_iff h,
    gatheredRows_sorting_ofList]
  refine ⟨?_, fun e he => exists_of_sortRows_eq_error he, ?_⟩
  · constructor
    · rintro ⟨e, he⟩
      by_contra hall
      have hkeys : ∀ r ∈ rows, ∀ k ∈ ks, k.integer? r ≠ none := by
        intro r hr k hk hnone
        exact hall ⟨r, hr, k, hk, hnone⟩
      obtain ⟨out, hout⟩ := exists_sortRows_iff.mpr hkeys
      cases he.symm.trans hout
    · rintro ⟨r, hr, k, hk, hnone⟩
      cases hsort : sortRows ks rows with
      | error e => exact ⟨e, rfl⟩
      | ok out => exact absurd hnone (exists_sortRows_iff.mp ⟨out, hsort⟩ r hr k hk)
  · intro hkeys
    obtain ⟨out, hout⟩ := exists_sortRows_iff.mpr hkeys
    obtain ⟨hperm, hpairwise⟩ := perm_and_pairwise_of_sortRows hout
    have hordered : out.Pairwise (Precedes ks) := hpairwise.imp precedes_of_inOrder
    refine ⟨out, hout, hperm, hordered, ?_, ?_⟩
    · intro out' hperm' hordered'
      exact eq_of_perm_of_pairwise (hperm'.trans hperm.symm) hordered' hordered
    · intro τ m' fs' x' rows' h' hp
      rw [Machine.supplies_gathered_iff h', gatheredRows_sorting_ofList]
      exact sortRows_perm hp hout

namespace Sample

/-- Keys that tie, though their texts differ; the rows have different widths. -/
def tiedRows : List Row :=
  [⟨["5", "b"]⟩, ⟨["+5", "\u00e9"]⟩, ⟨["7"]⟩, ⟨["05", "z"]⟩, ⟨["5", "b", "x"]⟩, ⟨["5"]⟩]

/-- The rows of `tiedRows` in order, the greatest first. -/
def untiedRows : List Row :=
  [⟨["7"]⟩, ⟨["+5", "\u00e9"]⟩, ⟨["05", "z"]⟩, ⟨["5"]⟩, ⟨["5", "b"]⟩, ⟨["5", "b", "x"]⟩]

end Sample

/-- Rows whose keys tie are in the order of their texts. -/
theorem supplies_sorting_sample :
    (listed Sample.tiedRows).yield Sample.files Sample.tiedRows = .ofList Sample.tiedRows ∧
    (gathered (listed Sample.tiedRows) (sorting [{ index := 0, ascending := false }])).Supplies
      Sample.files ⟨Sample.tiedRows, .pending⟩ Sample.untiedRows := by
  have hinput := yield_listed Sample.tiedRows Sample.files Sample.tiedRows
  obtain ⟨out, hout, -, -, honly, -⟩ :=
    (supplies_sorting hinput [{ index := 0, ascending := false }]).2.2 (by decide +kernel)
  have huntied : Sample.untiedRows = out := honly _ (by decide) (by decide +kernel)
  rw [huntied]
  exact ⟨hinput, hout⟩

end FlatQuery.Rows
