import FlatQuery.Proofs.Catalog.Failure
import FlatQuery.Proofs.Catalog.Load
import FlatQuery.Proofs.Files.Grown

/-!
# Schemas that have been loaded

Loading a schema adds the tables that are not known yet, in the order of the text, and afterwards all
that it declares is known as it is declared (`Loaded`).  Loading it once more then finds nothing to do
(`register_known`), in the same catalog and in the one that is opened from its file: whenever a table
has been added the file is written, and the last one to be written tells the whole catalog
(`register_flushed`).

Two things can come in between (`not_loaded_again`).  A schema that adds nothing writes nothing, so a
table that an earlier operation could not write is still missing in the file.  And writing a catalog
replaces the schema if that is the file of the catalog, or the draft of it (`Snapshot.Apart`).
-/

namespace FlatQuery

namespace Snapshot

/-- That a path leads elsewhere than to a snapshot, and to another file than the draft of it, once the
directories above the snapshot have been made. -/
def Apart (fs : Files) (p q : Path) : Prop :=
  ∀ made, fs.createParents p = .ok made →
    made.place q ≠ made.place p ∧ made.find q ≠ made.find (p.extend ".tmp")

variable [Format] {fs fs' : Files} {p q : Path} {s : Snapshot}

/-- Writing a snapshot leaves a file that is apart from it as it is, and apart from it. -/
theorem read_of_write_apart (hs : fs.Sound) (ha : Apart fs p q) {c : Content}
    (hread : fs.read q = .ok c) (h : write fs p s = (.ok (), fs')) :
    fs'.read q = .ok c ∧ Apart fs' p q := by
  obtain ⟨made, drafted, hmade, hdrafted, hrename⟩ := write_eq_ok_iff.mp h
  obtain ⟨hplaces, hfinds⟩ := ha made hmade
  have hmadeParents := Files.made_of_createSteps hmade
  have hmadeSound : made.Sound := hmadeParents.sound hs
  obtain ⟨hread, hfinds⟩ := Files.read_of_write_other hmadeSound hfinds
    (hmadeParents.read hread) hdrafted
  have htree := Files.sameTree_of_write hdrafted
  have hplaces' : drafted.place q ≠ drafted.place p := by
    obtain ⟨place, -, hplace, -⟩ := Files.read_eq_ok_iff.mp hread
    intro heq
    have hmadeq := htree.place_eq_ok_iff.mp hplace
    rw [heq] at hplace
    exact hplaces (hmadeq.trans (htree.place_eq_ok_iff.mp hplace).symm)
  obtain ⟨hread, hplaces, hfinds⟩ := Files.read_of_rename_other hplaces' hfinds hread hrename
  refine ⟨hread, fun made' hmade' => ?_⟩
  -- the snapshot stands at its path, so the directories above it are there
  obtain ⟨-, -, new, -, -, -, hnew, -⟩ := Files.rename_eq_ok_iff.mp hrename
  have hthere := (Files.sameTree_of_rename hrename).place_eq_ok_iff.mpr hnew
  rw [Files.createParents_of_place hthere] at hmade'
  obtain rfl := Except.ok.inj hmade'
  exact ⟨hplaces, hfinds⟩

end Snapshot

namespace Schema

open Catalog (openIn Same Reachable)

variable {dataDir : Path} {c c' d : Catalog} {fs fs' : Files} {ds news : List Declaration}

/-! ### Tables as they are declared -/

/-- That a catalog has a table as it is declared: with just these columns and this data file. -/
def Known (dataDir : Path) (c : Catalog) (d : Declaration) : Prop :=
  ∃ t, c.find? d.name = some t ∧ t.columns = d.columns ∧ t.dataFile.same (d.dataFile dataDir) = true

theorem agree_eq_ok_iff {known : Table} {d : Declaration} : agree known d dataDir = .ok () ↔
    known.columns = d.columns ∧ known.dataFile.same (d.dataFile dataDir) = true := by
  unfold agree
  by_cases hcolumns : known.columns = d.columns
  · cases hfile : known.dataFile.same (d.dataFile dataDir) <;> simp [hcolumns]
  · simp [hcolumns]

/-- The tables for declarations, with the numbers that follow one. -/
def tablesFrom (dataDir : Path) (last : Nat) : List Declaration → List Table
  | [] => []
  | d :: ds => .named (last + 1) d.name d.columns (d.dataFile dataDir) :: tablesFrom dataDir (last + 1) ds

theorem lt_id_of_mem_tablesFrom {last : Nat} {t : Table} (h : t ∈ tablesFrom dataDir last ds) :
    last < t.id := by
  induction ds generalizing last with
  | nil => cases h
  | cons d ds ih =>
    rcases List.mem_cons.mp h with rfl | h
    · exact Nat.lt_succ_self last
    · exact Nat.lt_of_succ_lt (ih h)

theorem exists_of_mem_tablesFrom {last : Nat} {t : Table} (h : t ∈ tablesFrom dataDir last ds) :
    ∃ d ∈ ds, t.name = Name.canonical d.name := by
  induction ds generalizing last with
  | nil => cases h
  | cons d ds ih =>
    rcases List.mem_cons.mp h with rfl | h
    · exact ⟨d, List.mem_cons_self .., rfl⟩
    · obtain ⟨d', hd', hname⟩ := ih h
      exact ⟨d', List.mem_cons_of_mem _ hd', hname⟩

/-! ### What a schema adds -/

/-- That a catalog has become another one by a schema: some of the declarations are new to it and have
been added, and all of them are known as they are declared. -/
structure Loaded (dataDir : Path) (c c' : Catalog) (ds news : List Declaration) : Prop where
  sublist : news.Sublist ds
  unknown : ∀ d ∈ news, c.find? d.name = none
  tables : c'.tables = c.tables ++ tablesFrom dataDir c.lastId news
  lastId : c'.lastId = c.lastId + news.length
  location : c'.location = c.location
  consistent : c'.Consistent
  known : ∀ d ∈ ds, Known dataDir c' d

theorem Known.mono (hc : c.Consistent) (hc' : c'.Consistent) (hsub : c.tables ⊆ c'.tables)
    {d : Declaration} (h : Known dataDir c d) : Known dataDir c' d := by
  obtain ⟨t, hfind, hagree⟩ := h
  obtain ⟨ht, hname⟩ := hc.find?_eq_some_iff.mp hfind
  exact ⟨t, hc'.find?_eq_some_iff.mpr ⟨hsub ht, hname⟩, hagree⟩

theorem Known.same (hsame : Same d c) {e : Declaration} (h : Known dataDir c e) :
    Known dataDir d e := by
  obtain ⟨t, hfind, hagree⟩ := h
  have hbyId : d.byId? = c.byId? := funext fun id => by
    rw [Catalog.byId?, Catalog.byId?, hsame.tables]
  have hfind' : d.find? e.name = c.find? e.name := by
    rw [Catalog.find?, Catalog.find?, hsame.index, hbyId]
  exact ⟨t, hfind'.trans hfind, hagree⟩

theorem Loaded.subset (h : Loaded dataDir c c' ds news) : c.tables ⊆ c'.tables :=
  h.tables ▸ List.subset_append_left _ _

theorem Loaded.cons_known {d : Declaration} (hc : c.Consistent) (hknown : Known dataDir c d)
    (h : Loaded dataDir c c' ds news) : Loaded dataDir c c' (d :: ds) news where
  sublist := h.sublist.cons d
  unknown := h.unknown
  tables := h.tables
  lastId := h.lastId
  location := h.location
  consistent := h.consistent
  known := List.forall_mem_cons.mpr ⟨hknown.mono hc h.consistent h.subset, h.known⟩

/-- A declaration that is new adds a table, before those of the declarations after it. -/
theorem Loaded.cons_unknown {d : Declaration} (hc : c.Consistent) (hcolumns : d.columns ≠ [])
    (hfind : c.find? d.name = none) (h : Loaded dataDir (declare dataDir c d) c' ds news) :
    Loaded dataDir c c' (d :: ds) (d :: news) := by
  obtain ⟨t, ht⟩ : ∃ t, t = c.next d.name d.columns (d.dataFile dataDir) := ⟨_, rfl⟩
  have hdeclare : declare dataDir c d = c.grow t := ht ▸ declare_of_unknown hfind
  have htables : (declare dataDir c d).tables = c.tables ++ [t] := by
    rw [hdeclare, ht]
    exact hc.tables_grow_next d.name d.columns (d.dataFile dataDir)
  have hlastId : (declare dataDir c d).lastId = c.lastId + 1 := by
    rw [hdeclare, ht]
    rfl
  have hgrown : (declare dataDir c d).Consistent := (consistent_declare hc hcolumns).1
  have hadded : Known dataDir (declare dataDir c d) d := by
    refine ⟨t, hgrown.find?_eq_some_iff.mpr ⟨?_, ht ▸ rfl⟩, ht ▸ rfl, ?_⟩
    · rw [htables]
      exact List.mem_append_right _ (List.mem_singleton_self t)
    · subst ht
      exact beq_self_eq_true _
  constructor
  case sublist => exact h.sublist.cons_cons d
  case unknown =>
    refine List.forall_mem_cons.mpr ⟨hfind, fun d' hd' => ?_⟩
    -- a table known before is known after the declaration too
    by_contra hsome
    obtain ⟨u, hu⟩ := Option.ne_none_iff_exists'.mp hsome
    obtain ⟨hmem, hname⟩ := hc.find?_eq_some_iff.mp hu
    have hfound : (declare dataDir c d).find? d'.name = some u :=
      hgrown.find?_eq_some_iff.mpr ⟨htables ▸ List.mem_append_left _ hmem, hname⟩
    rw [h.unknown d' hd'] at hfound
    cases hfound
  case tables =>
    rw [h.tables, htables, hlastId, tablesFrom, List.append_assoc, ht]
    rfl
  case lastId =>
    rw [h.lastId, hlastId, List.length_cons]
    omega
  case location => rw [h.location, location_declare]
  case consistent => exact h.consistent
  case known => exact List.forall_mem_cons.mpr ⟨hadded.mono hgrown h.consistent h.subset, h.known⟩

theorem Loaded.find?_eq (hc : c.Consistent) (h : Loaded dataDir c c' ds news) {name : String}
    (hname : ∀ d ∈ news, Name.canonical d.name ≠ Name.canonical name) :
    c'.find? name = c.find? name := by
  refine Option.ext fun t => ?_
  rw [h.consistent.find?_eq_some_iff, hc.find?_eq_some_iff, h.tables, List.mem_append]
  constructor
  · rintro ⟨ht | ht, heq⟩
    · exact ⟨ht, heq⟩
    · obtain ⟨d, hd, hd'⟩ := exists_of_mem_tablesFrom ht
      exact absurd (hd'.symm.trans heq) (hname d hd)
  · rintro ⟨ht, heq⟩
    exact ⟨.inl ht, heq⟩

/-! ### Following a schema to its end -/

section

variable [Snapshot.Format]

/-- Where all is known as it is declared, there is nothing to do. -/
theorem register_known (hknown : ∀ d ∈ ds, Known dataDir c d) (fs : Files) (count : Nat) :
    register dataDir c fs count ds = (.ok count, c, fs) := by
  induction ds with
  | nil => rfl
  | cons d ds ih =>
    obtain ⟨⟨t, hfind, hagree⟩, hds⟩ := List.forall_mem_cons.mp hknown
    rw [register, hfind]
    simp only [agree_eq_ok_iff.mpr hagree]
    exact ih hds

/-- A declaration that is followed is known as it is declared, or it is new, and its table has been
added and the catalog written. -/
theorem register_cons_ok {d : Declaration} (hcolumns : d.columns ≠ []) {count n : Nat}
    (h : register dataDir c fs count (d :: ds) = (.ok n, c', fs')) :
    (Known dataDir c d ∧ register dataDir c fs count ds = (.ok n, c', fs')) ∨
      (c.find? d.name = none ∧ ∃ fs₁, (declare dataDir c d).flush fs = (.ok (), fs₁) ∧
        register dataDir (declare dataDir c d) fs₁ (count + 1) ds = (.ok n, c', fs')) := by
  rw [register] at h
  cases hfind : c.find? d.name with
  | some known =>
    simp only [hfind] at h
    split at h
    · cases h
    · next hagree => exact .inl ⟨⟨known, hfind, agree_eq_ok_iff.mp hagree⟩, h⟩
  | none =>
    simp only [hfind] at h
    split at h
    · cases h
    · next t c₁ fs₁ hr =>
      rcases register_unknown hcolumns hfind hr with ⟨e, he, -⟩ | ⟨t', -, rfl, hflush⟩
      · cases he
      · exact .inr ⟨rfl, fs₁, hflush, h⟩

/-- A schema that is followed to its end has been loaded, and the answer counts what was new. -/
theorem loaded_of_register (hc : c.Consistent) (hcolumns : ∀ d ∈ ds, d.columns ≠ []) {count n : Nat}
    (h : register dataDir c fs count ds = (.ok n, c', fs')) :
    ∃ news, Loaded dataDir c c' ds news ∧ n = count + news.length := by
  induction ds generalizing c fs count with
  | nil =>
    cases h
    refine ⟨[], ?_, rfl⟩
    exact ⟨.slnil, fun d hd => (nomatch hd), (List.append_nil _).symm, rfl, rfl, hc,
      fun d hd => (nomatch hd)⟩
  | cons d ds ih =>
    obtain ⟨hd, hds⟩ := List.forall_mem_cons.mp hcolumns
    rcases register_cons_ok hd h with ⟨hknown, h⟩ | ⟨hfind, fs₁, -, h⟩
    · obtain ⟨news, hloaded, hn⟩ := ih hc hds h
      exact ⟨news, hloaded.cons_known hc hknown, hn⟩
    · obtain ⟨news, hloaded, hn⟩ := ih (consistent_declare hc hd).1 hds h
      refine ⟨d :: news, hloaded.cons_unknown hc hd hfind, ?_⟩
      rw [hn, List.length_cons]
      omega

/-! ### The last time that the catalog was written -/

/-- If a schema is followed to its end, the catalog has been written last as it is then, unless
nothing was new.  What each writing keeps to be true of the files was true before that. -/
theorem register_flushed (P : Files → Prop) {location : Option Path}
    (hP : ∀ (c : Catalog) (fs fs' : Files), c.location = location → P fs →
      c.flush fs = (.ok (), fs') → P fs')
    (hcolumns : ∀ d ∈ ds, d.columns ≠ []) (hlocation : c.location = location) (hfs : P fs)
    {count n : Nat} (h : register dataDir c fs count ds = (.ok n, c', fs')) :
    (n = count ∧ c' = c ∧ fs' = fs) ∨
      (count < n ∧ ∃ fs₀, P fs₀ ∧ c'.flush fs₀ = (.ok (), fs')) := by
  induction ds generalizing c fs count with
  | nil =>
    cases h
    exact .inl ⟨rfl, rfl, rfl⟩
  | cons d ds ih =>
    obtain ⟨hd, hds⟩ := List.forall_mem_cons.mp hcolumns
    rcases register_cons_ok hd h with ⟨-, h⟩ | ⟨-, fs₁, hflush, h⟩
    · exact ih hds hlocation hfs h
    · rw [← location_declare dataDir c d] at hlocation
      have hfs₁ : P fs₁ := hP _ _ _ hlocation hfs hflush
      right
      rcases ih hds hlocation hfs₁ h with ⟨rfl, rfl, rfl⟩ | ⟨hlt, hflushed⟩
      · exact ⟨Nat.lt_succ_self count, fs, hfs, hflush⟩
      · exact ⟨Nat.lt_of_succ_lt hlt, hflushed⟩

/-- That a schema can be read, and will be after the catalog has been written. -/
structure Legible (schema : Path) (text : String) (location : Option Path) (fs : Files) : Prop where
  sound : fs.Sound
  moment : Snapshot.Format.isMoment fs.now = true
  read : fs.readText schema = .ok text
  apart : ∀ path, location = some path → Snapshot.Apart fs path schema

theorem Legible.flush {schema : Path} {text : String} (h : Legible schema text c.location fs)
    (hflush : c.flush fs = (.ok (), fs')) : Legible schema text c.location fs' := by
  cases hlocation : c.location with
  | none =>
    rw [Catalog.flush_inMemory hlocation] at hflush
    cases hflush
    exact hlocation ▸ h
  | some path =>
    rw [Catalog.flush, hlocation] at hflush
    obtain ⟨content, hread, htext⟩ := Outcome.bind_eq_ok_iff.mp h.read
    obtain ⟨hread', hapart⟩ :=
      Snapshot.read_of_write_apart h.sound (h.apart path hlocation) hread hflush
    constructor
    case sound => exact Snapshot.sound_of_write h.sound hflush
    case moment => rw [Snapshot.now_of_write hflush, h.moment]
    case read => exact Outcome.bind_eq_ok_iff.mpr ⟨content, hread', htext⟩
    case apart =>
      rintro _ ⟨⟩
      exact hapart

theorem exists_openIn_of_flush [Snapshot.LawfulFormat] {root : Path} (hc : c.Consistent) (hs : fs.Sound)
    (hmoment : Snapshot.Format.isMoment fs.now = true)
    (hlocation : c.location = some (root.join Snapshot.fileName)) (hid : c.lastId < UInt64.size)
    (h : c.flush fs = (.ok (), fs')) : ∃ d, openIn fs' root = .ok d ∧ Same d c := by
  rw [Catalog.flush, hlocation] at h
  have hread := Snapshot.read_of_write hs h
  refine ⟨_, (Catalog.openIn_of_read hread).mpr ⟨(hc.fits hid).readable hmoment, rfl⟩, ?_⟩
  have hsame := (hc.restored (root.join Snapshot.fileName) fs.now).2
  rw [← hlocation] at hsame
  exact hsame

/-! ### Loading again -/

/-- What is loaded has been read and understood, and then followed to its end. -/
theorem exists_of_load {schema : Path} {n : Nat}
    (h : load c fs schema dataDir = (.ok n, c', fs')) :
    ∃ text ds, fs.readText schema = .ok text ∧ parse text = .ok ds ∧
      register dataDir c fs 0 ds = (.ok n, c', fs') := by
  rw [load] at h
  split at h
  · cases h
  · next text htext =>
    split at h
    · cases h
    · next ds hparse => exact ⟨text, ds, htext, hparse, h⟩

/-- Loading a schema into a catalog that knows all of it does nothing. -/
theorem load_known {schema : Path} {text : String} (htext : fs.readText schema = .ok text)
    (hparse : parse text = .ok ds) (hknown : ∀ d ∈ ds, Known dataDir c d) :
    load c fs schema dataDir = (.ok 0, c, fs) := by
  simp only [load, htext, hparse]
  exact register_known hknown fs 0

/-- **Loading is complete, and loading again does nothing.**  A schema that is loaded has been read to
its end: the tables that were not known have been added in the order of the text, with new numbers and
as many as the answer says; everything else is as it was; and all that is declared is known just as it
is declared.  If the schema is apart from the file of the catalog, loading it again adds nothing and
changes nothing, also after the catalog has been opened anew, if it was in step with its file or the
schema added a table. -/
theorem loaded_again [Snapshot.LawfulFormat] {schema : Path} {n : Nat} (hc : Reachable c)
    (hs : fs.Sound)
    (hmoment : Snapshot.Format.isMoment fs.now = true)
    (h : load c fs schema dataDir = (.ok n, c', fs')) :
    ∃ text ds news, fs.readText schema = .ok text ∧ parse text = .ok ds ∧
      news.length = n ∧ Loaded dataDir c c' ds news ∧
      (∀ t ∈ c.tables, ∀ u ∈ tablesFrom dataDir c.lastId news, t.id < u.id) ∧
      (∀ name, (∀ d ∈ news, Name.canonical d.name ≠ Name.canonical name) →
        c'.find? name = c.find? name) ∧
      ((∀ path, c.location = some path → Snapshot.Apart fs path schema) →
        load c' fs' schema dataDir = (.ok 0, c', fs') ∧
        ∀ root, c.location = some (root.join Snapshot.fileName) → c'.lastId < UInt64.size →
          (0 < n ∨ ∃ d, openIn fs root = .ok d ∧ Same d c) →
          ∃ d, openIn fs' root = .ok d ∧ Same d c' ∧
            load d fs' schema dataDir = (.ok 0, d, fs')) := by
  obtain ⟨text, ds, htext, hparse, h⟩ := exists_of_load h
  have hcolumns := columns_ne_nil_of_parseLines hparse
  obtain ⟨news, hloaded, hn⟩ := loaded_of_register hc.consistent hcolumns h
  rw [Nat.zero_add] at hn
  refine ⟨text, ds, news, htext, hparse, hn.symm, hloaded, ?_, ?_, ?_⟩
  · intro t ht u hu
    exact Nat.lt_of_le_of_lt (hc.consistent.numbered t ht).2 (lt_id_of_mem_tablesFrom hu)
  · intro name hname
    exact hloaded.find?_eq hc.consistent hname
  · intro hapart
    -- the schema can still be read after each flush, since the catalog is kept elsewhere
    have hlegible : Legible schema text c.location fs := ⟨hs, hmoment, htext, hapart⟩
    have hkept : ∀ (c₁ : Catalog) (fs₁ fs₂ : Files), c₁.location = c.location →
        Legible schema text c.location fs₁ → c₁.flush fs₁ = (.ok (), fs₂) →
        Legible schema text c.location fs₂ := by
      intro c₁ fs₁ fs₂ hlocation hfs₁ hflush
      rw [← hlocation] at hfs₁ ⊢
      exact hfs₁.flush hflush
    rcases register_flushed _ hkept hcolumns rfl hlegible h with
      ⟨rfl, rfl, rfl⟩ | ⟨hpos, fs₀, hfs₀, hflush⟩
    · refine ⟨load_known htext hparse hloaded.known, fun root _ _ hreopens => ?_⟩
      obtain ⟨d, hopen, hsame⟩ := hreopens.resolve_left (Nat.lt_irrefl 0)
      exact ⟨d, hopen, hsame, load_known htext hparse fun e he => (hloaded.known e he).same hsame⟩
    · have hread : fs'.readText schema = .ok text :=
        (hkept c' fs₀ fs' hloaded.location hfs₀ hflush).read
      refine ⟨load_known hread hparse hloaded.known, fun root hlocation hid _ => ?_⟩
      obtain ⟨d, hopen, hsame⟩ := exists_openIn_of_flush hloaded.consistent hfs₀.sound hfs₀.moment
        (hloaded.location.trans hlocation) hid hflush
      exact ⟨d, hopen, hsame, load_known hread hparse fun e he => (hloaded.known e he).same hsame⟩

end

/-! ### Schemas in the way of a catalog, and catalogs that lag behind -/

/-- A directory called `db` with a schema in it. -/
def schemaDirectory : Files :=
  { entries := [(["db"], .directory), (["db", "schema.txt"], .file 0)]
    contents := [.text "Student sid name\nCourse cid\nStudent SID NAME\n"] }

/-- A directory called `db` whose schema has the name of the draft of a catalog. -/
def draftDirectory : Files :=
  { entries := [(["db"], .directory), (["db", "catalog.json.tmp"], .file 0)]
    contents := [.text "t a\n"] }

/-- A schema beside a directory called `db` in which a catalog cannot be written. -/
def blockedSchema : Files :=
  { entries := [(["db"], .directory), (["db", "catalog.json.tmp"], .directory),
      (["schema.txt"], .file 0)]
    contents := [.text "t a\n"] }

/-- A schema that has the name of the draft is gone once the catalog has been written.  And a table
that could not be written is known, so that loading has nothing to do; the catalog that is opened then
does not know it. -/
theorem not_loaded_again :
    (¬ ∀ (c : Catalog) (fs : Files) (schema dataDir : Path) (n : Nat) (c' : Catalog) (fs' : Files),
      Reachable c → fs.Sound → load c fs schema dataDir = (.ok n, c', fs') →
        (load c' fs' schema dataDir).1 = .ok 0) ∧
    ¬ ∀ (c : Catalog) (fs : Files) (schema dataDir : Path) (n : Nat) (c' : Catalog) (fs' : Files)
      (root : Path) (d : Catalog), Reachable c → fs.Sound →
        c.location = some (root.join Snapshot.fileName) →
        load c fs schema dataDir = (.ok n, c', fs') → openIn fs' root = .ok d →
          (load d fs' schema dataDir).1 = .ok 0 := by
  constructor
  · intro hclaim
    let again (c : Catalog) (fs : Files) := load c fs ⟨"db/catalog.json.tmp"⟩ ⟨"data"⟩
    have hok : (again Catalog.firstOpened draftDirectory).1 = .ok 1 := by decide +kernel
    have hagain : (again (again Catalog.firstOpened draftDirectory).2.1
        (again Catalog.firstOpened draftDirectory).2.2).1 = .error (.file .notFound) := by
      decide +kernel
    rcases hload : again Catalog.firstOpened draftDirectory with ⟨outcome, c', fs'⟩
    rw [hload] at hok hagain
    obtain rfl : outcome = .ok 1 := hok
    have hzero := hclaim _ _ _ _ _ _ _ Catalog.reachable_firstOpened (Files.sound_of_all rfl) hload
    rw [hagain] at hzero
    cases hzero
  · intro hclaim
    let c := (Catalog.firstOpened.perform blockedSchema
      (.register "t" [.named "a"] ⟨"data/t.csv"⟩)).2.1
    have hc : Reachable c := Catalog.reachable_firstOpened.step blockedSchema _
    have hlocation : c.location = some ((⟨"db"⟩ : Path).join Snapshot.fileName) := by decide +kernel
    have hok : (load c blockedSchema ⟨"schema.txt"⟩ ⟨"data"⟩).1 = .ok 0 := by decide +kernel
    have hopen : openIn (load c blockedSchema ⟨"schema.txt"⟩ ⟨"data"⟩).2.2 ⟨"db"⟩ =
        .ok Catalog.firstOpened := by
      decide +kernel
    have hagain : (load Catalog.firstOpened (load c blockedSchema ⟨"schema.txt"⟩ ⟨"data"⟩).2.2
        ⟨"schema.txt"⟩ ⟨"data"⟩).1 = .error (.file .isADirectory) := by
      decide +kernel
    rcases hload : load c blockedSchema ⟨"schema.txt"⟩ ⟨"data"⟩ with ⟨outcome, c', fs'⟩
    rw [hload] at hok hopen hagain
    obtain rfl : outcome = .ok 0 := hok
    have hzero := hclaim _ _ _ _ _ _ _ _ _ hc (Files.sound_of_all rfl) hlocation hload hopen
    rw [hagain] at hzero
    cases hzero

/-- Two tables are added, the first of which the schema declares once more in another spelling.  Then
the schema is loaded again, and once more after the catalog has been opened anew. -/
theorem loaded_again_sample :
    ∃ c' fs', load Catalog.firstOpened schemaDirectory ⟨"db/schema.txt"⟩ ⟨"db"⟩ = (.ok 2, c', fs') ∧
      load c' fs' ⟨"db/schema.txt"⟩ ⟨"db"⟩ = (.ok 0, c', fs') ∧
      ∃ d, openIn fs' ⟨"db"⟩ = .ok d ∧ Same d c' ∧
        load d fs' ⟨"db/schema.txt"⟩ ⟨"db"⟩ = (.ok 0, d, fs') := by
  have hok : (load Catalog.firstOpened schemaDirectory ⟨"db/schema.txt"⟩ ⟨"db"⟩).1 = .ok 2 := by
    decide +kernel
  rcases hload : load Catalog.firstOpened schemaDirectory ⟨"db/schema.txt"⟩ ⟨"db"⟩ with
    ⟨outcome, c', fs'⟩
  rw [hload] at hok
  obtain rfl : outcome = .ok 2 := hok
  have hapart : ∀ path, Catalog.firstOpened.location = some path →
      Snapshot.Apart schemaDirectory path ⟨"db/schema.txt"⟩ := by
    rintro _ ⟨⟩ made hmade
    have hplace : schemaDirectory.place ⟨"db/catalog.json"⟩ = .ok ["db", "catalog.json"] := by
      decide +kernel
    rw [Files.createParents_of_place hplace] at hmade
    obtain rfl := Except.ok.inj hmade
    exact ⟨by decide +kernel, by decide +kernel⟩
  obtain ⟨text, ds, news, -, -, hnews, hloaded, -, -, hagain⟩ := loaded_again
    Catalog.reachable_firstOpened (Files.sound_of_all rfl) (by decide +kernel) hload
  have hlast : c'.lastId < UInt64.size := by
    rw [hloaded.lastId, hnews]
    decide
  obtain ⟨hload', hreopened⟩ := hagain hapart
  exact ⟨c', fs', rfl, hload', hreopened ⟨"db"⟩ (by decide +kernel) hlast (.inl (by decide))⟩

end Schema

end FlatQuery
