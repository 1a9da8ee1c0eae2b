import FlatQuery.Proofs.Catalog.Consistent
import FlatQuery.Proofs.Outcome

/-!
# Catalogs read back

A format is lawful if what it stores of a snapshot is understood exactly if its numbers fit and its
moment is one, and then as the snapshot that it was (`Snapshot.LawfulFormat`).  The catalog that is
built from the snapshot of a consistent catalog has the tables of that catalog and the same meaning of
every name (`Consistent.restored`), though not the same order in the index.
-/

namespace FlatQuery

namespace Snapshot

variable [Format]

/-- A snapshot that can be read once it is written. -/
structure Readable (s : Snapshot) : Prop where
  moment : Format.isMoment s.savedAt = true
  lastId : s.lastId < UInt64.size
  ids : ∀ t ∈ s.tables, t.id < UInt64.size

/-- That what is stored of a snapshot is understood as that snapshot, as far as it is readable, and not
understood otherwise. -/
class LawfulFormat : Prop where
  ofContent?_text_eq_some_iff {s s' : Snapshot} :
    Format.ofContent? (.text (Format.text s)) = some s' ↔ s.Readable ∧ s' = s

end Snapshot

namespace Catalog

/-! ### Catalogs -/

variable {c : Catalog}

theorem Consistent.lookup_eq_some_iff (hc : c.Consistent) {name : String} {id : Nat} :
    c.index.lookup name = some id ↔ ∃ t ∈ c.tables, t.id = id ∧ t.name = name := by
  constructor
  · intro h
    exact (hc.indexed name id h).2
  · rintro ⟨t, ht, rfl, rfl⟩
    exact hc.listed t ht

/-- Two catalogs that know the same tables by the same names, and go on with the same number. -/
structure Same (c d : Catalog) : Prop where
  location : c.location = d.location
  tables : c.tables = d.tables
  lastId : c.lastId = d.lastId
  index : ∀ name, c.index.lookup name = d.index.lookup name

/-- In a consistent catalog the meaning of the names is told by the tables. -/
theorem Consistent.same {d : Catalog} (hc : c.Consistent) (hd : d.Consistent)
    (hlocation : c.location = d.location) (htables : c.tables = d.tables)
    (hlastId : c.lastId = d.lastId) : Same c d := by
  refine ⟨hlocation, htables, hlastId, fun name => ?_⟩
  refine Option.ext fun id => ?_
  rw [hc.lookup_eq_some_iff, hd.lookup_eq_some_iff, htables]

/-- Adding tables of a consistent catalog one after the other gives a consistent catalog. -/
theorem Consistent.foldl_add (hc : c.Consistent) (rest : List Table) : ∀ (d : Catalog)
    (_ : d.Consistent), d.tables ++ rest = c.tables → d.lastId = c.lastId →
      (rest.foldl Catalog.add d).Consistent ∧ (rest.foldl Catalog.add d).tables = c.tables ∧
      (rest.foldl Catalog.add d).lastId = c.lastId ∧ (rest.foldl Catalog.add d).location = d.location := by
  -- on the tables to be added: those added so far are a front of the tables of `c`
  induction rest with
  | nil =>
    intro d hd htables hlastId
    rw [List.append_nil] at htables
    exact ⟨hd, htables, hlastId, rfl⟩
  | cons t rest ih =>
    intro d hd htables hlastId
    have ht : t ∈ c.tables := by
      rw [← htables]
      exact List.mem_append_right _ (List.mem_cons_self ..)
    have hlast : ∀ u ∈ d.tables, u.id < t.id := by
      intro u hu
      have hincreasing := hc.increasing
      rw [← htables] at hincreasing
      exact (List.pairwise_append.mp hincreasing).2.2 u hu t (List.mem_cons_self ..)
    have hnew : ∀ u ∈ d.tables, u.name ≠ t.name := by
      intro u hu hname
      have huc : u ∈ c.tables := by
        rw [← htables]
        exact List.mem_append_left _ hu
      have hlt := hlast u hu
      rw [hc.eq_of_name huc ht hname] at hlt
      exact Nat.lt_irrefl _ hlt
    have hnumbered := hc.numbered t ht
    have hadd : (d.add t).Consistent := by
      refine hd.add (n := d.lastId) (hc.canonical_name ht) hnew hlast (hc.columns t ht) ?_ ?_
      · exact hnumbered.1
      · rw [hlastId]
        exact hnumbered.2
    have htables' : (d.add t).tables ++ rest = c.tables := by
      rw [← htables]
      change insertTable t d.tables ++ rest = _
      rw [insertTable_of_forall_lt hlast, List.append_assoc, List.singleton_append]
    exact ih (d.add t) hadd htables' hlastId

/-- **Catalogs are restored.**  The catalog that a snapshot of a consistent catalog holds is
consistent and knows the same. -/
theorem Consistent.restored (hc : c.Consistent) (path : Path) (savedAt : String) :
    (ofSnapshot path (c.snapshot savedAt)).Consistent ∧
      Same (ofSnapshot path (c.snapshot savedAt)) { c with location := some path } := by
  have hempty : Consistent { location := some path, lastId := c.lastId } :=
    ⟨.nil, fun _ _ h => (nomatch h), fun _ h => (nomatch h), fun _ h => (nomatch h),
      fun _ h => (nomatch h)⟩
  obtain ⟨hrestored, htables, hlastId, hlocation⟩ :=
    hc.foldl_add c.tables _ hempty (List.nil_append _) rfl
  have hmoved : Consistent { c with location := some path } :=
    ⟨hc.increasing, hc.indexed, hc.listed, hc.columns, hc.numbered⟩
  exact ⟨hrestored, hrestored.same hmoved hlocation htables hlastId⟩

/-- That all numbers of a catalog fit 64 bits. -/
structure Fits (c : Catalog) : Prop where
  lastId : c.lastId < UInt64.size
  ids : ∀ t ∈ c.tables, t.id < UInt64.size

theorem Consistent.fits (hc : c.Consistent) (h : c.lastId < UInt64.size) : c.Fits :=
  ⟨h, fun t ht => Nat.lt_of_le_of_lt (hc.numbered t ht).2 h⟩

/-! ### Opening -/

variable [Snapshot.Format] {fs : Files} {root : Path}

theorem Fits.readable (h : c.Fits) {savedAt : String}
    (hmoment : Snapshot.Format.isMoment savedAt = true) : (c.snapshot savedAt).Readable :=
  ⟨hmoment, h.lastId, h.ids⟩

/-- The file at a path holds a snapshot of the catalog. -/
def StoredAt (c : Catalog) (fs : Files) (path : Path) : Prop :=
  ∃ savedAt, fs.read path = .ok (.text (Snapshot.Format.text (c.snapshot savedAt)))

theorem openIn_of_absent (h : fs.isThere (root.join Snapshot.fileName) = false) :
    openIn fs root = .ok { location := some (root.join Snapshot.fileName) } := by
  simp only [openIn, h, Bool.false_eq_true, if_false]

theorem openIn_of_read [Snapshot.LawfulFormat] {savedAt : String}
    (h : fs.read (root.join Snapshot.fileName) = .ok (.text (Snapshot.Format.text (c.snapshot savedAt))))
    {d : Catalog} :
    openIn fs root = .ok d ↔ (c.snapshot savedAt).Readable ∧
      d = ofSnapshot (root.join Snapshot.fileName) (c.snapshot savedAt) := by
  have hthere : fs.isThere (root.join Snapshot.fileName) = true := by
    obtain ⟨node, hnode, -⟩ := Outcome.bind_eq_ok_iff.mp h
    rw [Files.isThere, hnode]
    rfl
  simp only [openIn, hthere, if_true, Snapshot.read, h]
  cases hcontent : Snapshot.Format.ofContent? (.text (Snapshot.Format.text (c.snapshot savedAt))) with
  | none =>
    refine ⟨fun h => (nomatch h), fun hd => ?_⟩
    rw [Snapshot.LawfulFormat.ofContent?_text_eq_some_iff.mpr ⟨hd.1, rfl⟩] at hcontent
    cases hcontent
  | some s =>
    obtain ⟨hreadable, rfl⟩ := Snapshot.LawfulFormat.ofContent?_text_eq_some_iff.mp hcontent
    constructor
    · intro h
      exact ⟨hreadable, (Except.ok.inj h).symm⟩
    · rintro ⟨-, rfl⟩
      rfl

end Catalog

end FlatQuery
