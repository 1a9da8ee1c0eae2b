import FlatQuery.Proofs.Catalog.Consistent

/-!
# What the operations do to a catalog

Registering and dropping, case by case (`register_cases`, `drop_cases`): an operation is refused and
leaves the catalog as it is, or the catalog is changed in memory and then written.  The change stays
whatever becomes of the writing, so both keep a catalog consistent (`Consistent.register`,
`Consistent.drop`).
-/

namespace FlatQuery.Catalog

variable {c : Catalog} {fs : Files}

/-! ### Flushing -/

theorem flush_inMemory [Snapshot.Format] (h : c.location = none) : c.flush fs = (.ok (), fs) := by
  rw [flush, h]

/-- Only a catalog that is kept in a file can fail to be written, for a reason that the files give. -/
theorem flush_error [Snapshot.Format] {e : Error} (h : (c.flush fs).1 = .error e) :
    (∃ path, c.location = some path) ∧ ∃ cause, e = .file cause := by
  rw [flush] at h
  cases hlocation : c.location with
  | none =>
    rw [hlocation] at h
    cases h
  | some path =>
    refine ⟨⟨path, rfl⟩, ?_⟩
    simp only [hlocation, Snapshot.write] at h
    split at h
    · exact ⟨_, (Except.error.inj h).symm⟩
    · split at h
      · exact ⟨_, (Except.error.inj h).symm⟩
      · split at h
        · exact ⟨_, (Except.error.inj h).symm⟩
        · cases h

/-! ### Registering -/

@[simp] theorem has_canonical (name : String) : c.has (Name.canonical name) = c.has name := by
  rw [has, has, Name.canonical_canonical]

def next (c : Catalog) (name : String) (columns : List Column) (file : Path) : Table :=
  .named (c.lastId + 1) name columns file

/-- Registering is refused, or the next table is added and the catalog written. -/
theorem register_cases [Snapshot.Format] (c : Catalog) (fs : Files) (name : String)
    (columns : List Column) (file : Path) :
    (columns = [] ∧
      c.register fs name columns file = (.error (.noColumns (Name.canonical name)), c, fs)) ∨
    (columns ≠ [] ∧ c.has name = true ∧
      c.register fs name columns file = (.error (.tableExists (Name.canonical name)), c, fs)) ∨
    (columns ≠ [] ∧ c.has name = false ∧ ∃ t, t = c.next name columns file ∧
      c.register fs name columns file =
        (((c.grow t).flush fs).1.map fun _ => t, c.grow t, ((c.grow t).flush fs).2)) := by
  have hnext : c.next name columns file = .named (c.lastId + 1) (Name.canonical name) columns file := by
    rw [next, Table.named, Table.named, Name.canonical_canonical]
  by_cases hcolumns : columns = []
  · subst hcolumns
    exact .inl ⟨rfl, rfl⟩
  · have hempty : columns.isEmpty = false := by simpa using hcolumns
    right
    cases hhas : c.has name with
    | true =>
      refine .inl ⟨hcolumns, rfl, ?_⟩
      simp only [register, hempty, has_canonical, hhas, Bool.false_eq_true, if_false, if_true]
    | false =>
      refine .inr ⟨hcolumns, rfl, c.next name columns file, rfl, ?_⟩
      have hgrow : { c.add (c.next name columns file) with lastId := c.lastId + 1 } =
          c.grow (c.next name columns file) := rfl
      simp only [register, hempty, has_canonical, hhas, Bool.false_eq_true, if_false, ← hnext,
        hgrow]
      rcases (c.grow (c.next name columns file)).flush fs with ⟨e | ⟨⟩, fs'⟩
      · rfl
      · rfl

theorem Consistent.grow_next (hc : c.Consistent) {name : String} {columns : List Column}
    (file : Path) (hcolumns : columns ≠ []) (hnew : c.has name = false) :
    (c.grow (c.next name columns file)).Consistent := by
  refine hc.add ?_ ?_ ?_ hcolumns (Nat.le_add_left 1 c.lastId) (Nat.le_refl _)
  · exact Name.canonical_canonical name
  · intro u hu hname
    have hhas : c.has name = true := hc.has_eq_true_iff.mpr ⟨u, hu, hname⟩
    rw [hnew] at hhas
    cases hhas
  · intro u hu
    exact Nat.lt_succ_of_le (hc.numbered u hu).2

theorem Consistent.tables_grow_next (hc : c.Consistent) (name : String) (columns : List Column)
    (file : Path) :
    (c.grow (c.next name columns file)).tables = c.tables ++ [c.next name columns file] :=
  insertTable_of_forall_lt fun u hu => Nat.lt_succ_of_le (hc.numbered u hu).2

theorem Consistent.register [Snapshot.Format] (hc : c.Consistent) (fs : Files) (name : String)
    (columns : List Column) (file : Path) :
    (c.register fs name columns file).2.1.Consistent := by
  rcases register_cases c fs name columns file with
    ⟨-, h⟩ | ⟨-, -, h⟩ | ⟨hcolumns, hnew, t, rfl, h⟩
  · rw [h]
    exact hc
  · rw [h]
    exact hc
  · rw [h]
    exact hc.grow_next file hcolumns hnew

/-! ### Dropping -/

/-- Removes the data file of a dropped table; a file that is gone already does not matter. -/
def discard (fs : Files) (t : Table) : Except Error Bool × Files :=
  match fs.remove t.dataFile with
  | .ok fs => (.ok true, fs)
  | .error .notFound => (.ok true, fs)
  | .error e => (.error (.file e), fs)

/-- The data file is gone, or it could not be removed and everything is as before. -/
theorem discard_cases (fs : Files) (t : Table) :
    (∃ fs', fs.remove t.dataFile = .ok fs' ∧ discard fs t = (.ok true, fs')) ∨
    (fs.remove t.dataFile = .error .notFound ∧ discard fs t = (.ok true, fs)) ∨
    (∃ cause, cause ≠ .notFound ∧ fs.remove t.dataFile = .error cause ∧
      discard fs t = (.error (.file cause), fs)) := by
  cases hremove : fs.remove t.dataFile with
  | ok fs' => exact .inl ⟨fs', rfl, by rw [discard, hremove]⟩
  | error cause =>
    by_cases hcause : cause = .notFound
    · subst hcause
      exact .inr (.inl ⟨rfl, by rw [discard, hremove]⟩)
    · refine .inr (.inr ⟨cause, hcause, rfl, ?_⟩)
      rw [discard, hremove]
      cases cause <;> first | rfl | exact absurd rfl hcause

/-- Dropping finds nothing, or what the name means is forgotten and the catalog written; only if
that succeeds the data file is looked at. -/
theorem drop_cases [Snapshot.Format] (c : Catalog) (fs : Files) (name : String) (deleteFile : Bool) :
    (c.index.lookup (Name.canonical name) = none ∧ c.drop fs name deleteFile = (.ok false, c, fs)) ∨
    ∃ id, c.index.lookup (Name.canonical name) = some id ∧
      ((∃ e fs', (c.forget name id).flush fs = (.error e, fs') ∧
          c.drop fs name deleteFile = (.error e, c.forget name id, fs')) ∨
        ∃ fs', (c.forget name id).flush fs = (.ok (), fs') ∧
          (((deleteFile = false ∨ c.byId? id = none) ∧
              c.drop fs name deleteFile = (.ok true, c.forget name id, fs')) ∨
            ∃ t, deleteFile = true ∧ c.byId? id = some t ∧ c.drop fs name deleteFile =
              ((discard fs' t).1, c.forget name id, (discard fs' t).2))) := by
  cases hid : c.index.lookup (Name.canonical name) with
  | none => exact .inl ⟨rfl, by rw [drop, hid]⟩
  | some id =>
    refine .inr ⟨id, rfl, ?_⟩
    rcases hflush : (c.forget name id).flush fs with ⟨e | ⟨⟩, fs'⟩
    · exact .inl ⟨e, fs', rfl, by simp only [drop, hid, hflush]⟩
    · refine .inr ⟨fs', rfl, ?_⟩
      cases deleteFile with
      | false => exact .inl ⟨.inl rfl, by simp only [drop, hid, hflush]⟩
      | true =>
        cases ht : c.byId? id with
        | none => exact .inl ⟨.inr rfl, by simp only [drop, hid, hflush, ht]⟩
        | some t =>
          refine .inr ⟨t, rfl, rfl, ?_⟩
          rcases discard_cases fs' t with ⟨fs'', hremove, h⟩ | ⟨hremove, h⟩ | ⟨e, he, hremove, h⟩
          · simp only [drop, hid, hflush, ht, hremove, h]
          · simp only [drop, hid, hflush, ht, hremove, h]
          · simp only [drop, hid, hflush, ht, hremove, h]

theorem drop_catalog [Snapshot.Format] (c : Catalog) (fs : Files) (name : String)
    (deleteFile : Bool) :
    (c.drop fs name deleteFile).2.1 =
      match c.index.lookup (Name.canonical name) with
      | none => c
      | some id => c.forget name id := by
  rcases drop_cases c fs name deleteFile with
    ⟨hid, h⟩ | ⟨id, hid, ⟨e, fs', -, h⟩ | ⟨fs', -, ⟨-, h⟩ | ⟨t, -, -, h⟩⟩⟩
  all_goals rw [h, hid]

theorem Consistent.drop [Snapshot.Format] (hc : c.Consistent) (fs : Files) (name : String)
    (deleteFile : Bool) :
    (c.drop fs name deleteFile).2.1.Consistent := by
  rw [drop_catalog]
  cases hid : c.index.lookup (Name.canonical name) with
  | none => exact hc
  | some id => exact hc.forget hid

end FlatQuery.Catalog
