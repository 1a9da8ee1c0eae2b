import FlatQuery.Proofs.Catalog.Run
import FlatQuery.Proofs.Catalog.Underway
import FlatQuery.Proofs.Rows.Machines

/-!
# What dropping a table leaves

Dropping a table forgets this one and no other (`OthersKnown`).  In the files it can change what stands
at the place of the data file, and what writing the catalog can change (`Disturbs`); a table whose data
file is clear of these places is scanned as before (`Intact`).  All tables together need not be:
nothing keeps two of them from naming one data file, or one from naming the file of the catalog
(`not_intact_after_drop`).
-/

namespace FlatQuery.Catalog

open Files (Confined Clear)
open Rows (openTable scanned)

variable {c c' : Catalog} {fs fs' : Files} {name : String} {t : Table}

/-! ### The tables that stay -/

/-- That a catalog answers like another for all names but one, which it does not know. -/
structure OthersKnown (name : String) (c c' : Catalog) : Prop where
  get : ∀ other, Name.canonical other ≠ Name.canonical name → c'.get other = c.get other
  has : ∀ other, Name.canonical other ≠ Name.canonical name → c'.has other = c.has other
  byId : ∀ u ∈ c.list, u.name ≠ Name.canonical name → c'.byId? u.id = some u
  list : ∀ u, u ∈ c'.list ↔ u ∈ c.list ∧ u.name ≠ Name.canonical name

/-- A consistent catalog with all tables but those of a name answers like the other. -/
theorem OthersKnown.of_mem_iff (hc : c.Consistent) (hc' : c'.Consistent)
    (htables : ∀ u, u ∈ c'.tables ↔ u ∈ c.tables ∧ u.name ≠ Name.canonical name) :
    OthersKnown name c c' := by
  have hfind : ∀ other, Name.canonical other ≠ Name.canonical name →
      c'.find? other = c.find? other := by
    intro other hother
    refine Option.ext fun u => ?_
    rw [hc'.find?_eq_some_iff, hc.find?_eq_some_iff, htables]
    constructor
    · rintro ⟨⟨hu, -⟩, huname⟩
      exact ⟨hu, huname⟩
    · rintro ⟨hu, huname⟩
      exact ⟨⟨hu, fun heq => hother (huname.symm.trans heq)⟩, huname⟩
  constructor
  case get =>
    intro other hother
    rw [Catalog.get, hfind other hother, Catalog.get]
  case has =>
    intro other hother
    rw [hc'.has_eq_isSome, hfind other hother, hc.has_eq_isSome]
  case byId =>
    intro u hu huname
    exact hc'.byId?_eq_some_iff.mpr
      ⟨(htables u).mpr ⟨Consistent.mem_list.mp hu, huname⟩, rfl⟩
  case list =>
    intro u
    rw [Consistent.mem_list, Consistent.mem_list, htables]

/-- Dropping forgets the table of the name, if there is one, and no other. -/
theorem Consistent.othersKnown_drop [Snapshot.Format] (hc : c.Consistent) (fs : Files)
    (name : String) (deleteFile : Bool) : OthersKnown name c (c.drop fs name deleteFile).2.1 := by
  refine .of_mem_iff hc (hc.drop fs name deleteFile) fun u => ?_
  rw [drop_catalog]
  cases hid : c.index.lookup (Name.canonical name) with
  | none =>
    -- no table has the name, so all of them stay
    refine ⟨fun hu => ⟨hu, fun huname => ?_⟩, And.left⟩
    rw [← huname, hc.listed u hu] at hid
    cases hid
  | some id =>
    obtain ⟨-, t, ht, rfl, hname⟩ := hc.indexed _ _ hid
    rw [mem_tables_forget, ← hname]
    refine and_congr_right fun hu => not_congr ⟨fun h => ?_, fun h => ?_⟩
    · rw [hc.eq_of_id hu ht h]
    · rw [hc.eq_of_name hu ht h]

/-! ### The files that stay -/

/-- That writing the catalog may change what stands at a place: by drafting it, or, if it succeeds, by
putting it there. -/
def Rewrites [Snapshot.Format] (c : Catalog) (fs : Files) (place : Place) : Prop :=
  ∃ p, c.location = some p ∧
    (Snapshot.Drafts fs p place ∨ (c.flush fs).1 = .ok () ∧ place = fs.goal p)

/-- That dropping a table may change what stands at a place: by writing the catalog without it, or, if
that succeeds, by removing the data file there. -/
def Disturbs [Snapshot.Format] (c : Catalog) (fs : Files) (name : String) (place : Place) : Prop :=
  ∃ t, c.find? name = some t ∧ ((c.forget name t.id).Rewrites fs place ∨
    ((c.forget name t.id).flush fs).1 = .ok () ∧ place = fs.goal t.dataFile)

theorem confined_flush [Snapshot.Format] (hs : fs.Sound) (c : Catalog) :
    Confined (c.Rewrites fs) fs (c.flush fs).2 := by
  rcases hlocation : c.location with _ | p
  · rw [flush_inMemory hlocation]
    exact .refl _ fs
  · rcases hflush : c.flush fs with ⟨e | ⟨⟩, fs'⟩
    · have hwrite : (c.snapshot fs.now).write fs p = (.error e, fs') := by
        rw [← hflush, flush, hlocation]
      exact ((Snapshot.underway_of_write hwrite).confined hs).mono
        fun place hdrafts => ⟨p, hlocation, .inl hdrafts⟩
    · have hwrite : (c.snapshot fs.now).write fs p = (.ok (), fs') := by
        rw [← hflush, flush, hlocation]
      refine (Snapshot.confined_of_write hs hwrite).mono fun place hplace => ⟨p, hlocation, ?_⟩
      exact hplace.imp_right fun hgoal => ⟨by rw [hflush], hgoal⟩

theorem confined_discard (fs : Files) (t : Table) :
    Confined (fun place => place = fs.goal t.dataFile) fs (discard fs t).2 := by
  rcases discard_cases fs t with ⟨fs', hremove, h⟩ | ⟨-, h⟩ | ⟨cause, -, -, h⟩
  · rw [h]
    exact Files.confined_of_remove hremove
  · rw [h]
    exact .refl _ fs
  · rw [h]
    exact .refl _ fs

theorem Consistent.confined_drop [Snapshot.Format] (hc : c.Consistent) (hs : fs.Sound)
    (name : String) (deleteFile : Bool) :
    Confined (c.Disturbs fs name) fs (c.drop fs name deleteFile).2.2 := by
  rcases drop_cases c fs name deleteFile with ⟨-, h⟩ | ⟨id, hid, hcases⟩
  · rw [h]
    exact .refl _ fs
  · obtain ⟨-, t, ht, rfl, hname⟩ := hc.indexed _ _ hid
    have hfind : c.find? name = some t := hc.find?_eq_some_iff.mpr ⟨ht, hname⟩
    have hflushed : Confined (c.Disturbs fs name) fs ((c.forget name t.id).flush fs).2 :=
      (confined_flush hs _).mono fun place hplace => ⟨t, hfind, .inl hplace⟩
    rcases hcases with ⟨e, fs', hflush, h⟩ | ⟨fs', hflush, ⟨-, h⟩ | ⟨u, -, hu, h⟩⟩
    · rw [hflush] at hflushed
      rwa [h]
    · rw [hflush] at hflushed
      rwa [h]
    · rw [hflush] at hflushed
      rw [h]
      obtain rfl : u = t := by
        rw [find?, hid] at hfind
        exact Option.some.inj (hu.symm.trans hfind)
      refine hflushed.trans ((confined_discard fs' u).mono fun place hplace => ⟨u, hfind, .inr ?_⟩)
      rw [hflush, hplace, Files.goal_congr hflushed.current]
      exact ⟨rfl, rfl⟩

/-- A path where a file is found is clear, unless it leads to the data file of the table, to the catalog
or to the file of the draft. -/
theorem clear_of_find [Snapshot.Format] {p q : Path} {id : Nat} (ht : c.find? name = some t)
    (hp : c.location = some p) (hfind : fs.find q = .ok (.file id))
    (hdata : fs.goal q ≠ fs.goal t.dataFile) (hcatalog : fs.goal q ≠ fs.goal p)
    (hdraft : ¬ fs.SameFile (fs.goal q) (fs.goal (p.extend ".tmp"))) :
    Clear (c.Disturbs fs name) fs q := by
  refine .of_find hfind ?_
  rintro ⟨u, hu, ⟨p', hp', (hsame | ⟨hnone, -⟩) | ⟨-, hgoal⟩⟩ | ⟨-, hgoal⟩⟩
  · rw [location_forget, hp] at hp'
    cases hp'
    exact hdraft hsame
  · obtain ⟨place, hplace, hnode, -⟩ := Files.find_eq_file_iff.mp hfind
    rw [← Files.eq_goal_of_place hplace, Files.standing?_of_file hnode] at hnone
    cases hnone
  · rw [location_forget, hp] at hp'
    cases hp'
    exact hcatalog hgoal
  · rw [ht] at hu
    cases hu
    exact hdata hgoal

/-! ### The rows that stay -/

/-- That the data file of a table is as it was: it is read as before and opened as before, and a scan
hands out the same rows and the same error, if there is one. -/
structure Intact (t : Table) (fs fs' : Files) : Prop where
  read : fs'.read t.dataFile = fs.read t.dataFile
  opened : openTable fs' t = openTable fs t
  scanned : ∀ s, openTable fs t = .ok s → (scanned t).yield fs' s = (scanned t).yield fs s

theorem intact_of_confined {P : Place → Prop} (h : Confined P fs fs') (ht : Clear P fs t.dataFile) :
    Intact t fs fs' := by
  constructor
  case read => exact h.read_eq ht
  case opened => rw [openTable, Files.openPath, h.find_eq ht, openTable, Files.openPath]
  case scanned =>
    intro s hs
    obtain ⟨node, hfind, rfl⟩ := Rows.openTable_eq_ok_iff.mp hs
    rw [Rows.yield_scanned, Rows.yield_scanned]
    refine Rows.handleRows_congr t.dataFile.text fun id hid => ?_
    obtain rfl : node = .file id := hid
    exact h.content_eq ht hfind

/-- **Dropping a table leaves the others alone.**  Whatever comes of it, the catalog forgets that table
and no other, and every other table whose data file is clear of what it disturbs is read, opened and
scanned as before. -/
theorem Reachable.drop_spares [Snapshot.Format] [Snapshot.LawfulFormat] (hc : Reachable c)
    (hs : fs.Sound) {outcome : Except Error Bool}
    (h : c.drop fs name true = (outcome, c', fs')) :
    OthersKnown name c c' ∧
      ∀ u ∈ c'.list, Clear (c.Disturbs fs name) fs u.dataFile → Intact u fs fs' := by
  have hknown := hc.consistent.othersKnown_drop fs name true
  have hconfined := hc.consistent.confined_drop hs name true
  rw [h] at hknown hconfined
  exact ⟨hknown, fun u _ hclear => intact_of_confined hconfined hclear⟩

/-! ### Two tables -/

/-- A catalog to which a table `a` and then a table `b` are added. -/
def withTables (c : Catalog) (fileA fileB : Path) : Catalog :=
  c.after [({}, .register "a" [.named "x"] fileA), ({}, .register "b" [.named "x"] fileB)]

/-- Two tables with their data files in a directory called `db`. -/
def twoTables : Catalog :=
  firstOpened.withTables ⟨"db/a.csv"⟩ ⟨"db/b.csv"⟩

def twoDataFiles : Files where
  entries := [(["db"], .directory), (["db", "a.csv"], .file 0), (["db", "b.csv"], .file 1)]
  contents := [.text "1\n", .text "2\n"]

/-- The table `a` is dropped with its data file, and the table `b` holds what it held. -/
theorem drop_spares_sample :
    ∃ c' fs', twoTables.drop twoDataFiles "A" true = (.ok true, c', fs') ∧
      fs'.read ⟨"db/a.csv"⟩ = .error .notFound ∧ fs'.read ⟨"db/b.csv"⟩ = .ok (.text "2\n") ∧
      OthersKnown "A" twoTables c' ∧
      Intact (.named 2 "b" [.named "x"] ⟨"db/b.csv"⟩) twoDataFiles fs' := by
  have hok : (twoTables.drop twoDataFiles "A" true).1 = .ok true := by decide +kernel
  have hgone : (twoTables.drop twoDataFiles "A" true).2.2.read ⟨"db/a.csv"⟩ = .error .notFound := by
    decide +kernel
  have hmem : .named 2 "b" [.named "x"] ⟨"db/b.csv"⟩ ∈ twoTables.tables := by decide +kernel
  have ht : twoTables.find? "A" = some (.named 1 "a" [.named "x"] ⟨"db/a.csv"⟩) := by decide +kernel
  have hp : twoTables.location = some ⟨"db/catalog.json"⟩ := by decide +kernel
  rcases hdrop : twoTables.drop twoDataFiles "A" true with ⟨outcome, c', fs'⟩
  rw [hdrop] at hok hgone
  obtain rfl : outcome = .ok true := hok
  obtain ⟨hknown, hspared⟩ :=
    (reachable_firstOpened.after _).drop_spares (Files.sound_of_all (by decide)) hdrop
  have hb : .named 2 "b" [.named "x"] ⟨"db/b.csv"⟩ ∈ c'.list :=
    (hknown.list _).mpr ⟨Consistent.mem_list.mpr hmem, by decide +kernel⟩
  have hdraft : ¬ twoDataFiles.SameFile (twoDataFiles.goal ⟨"db/b.csv"⟩)
      (twoDataFiles.goal (Path.extend ⟨"db/catalog.json"⟩ ".tmp")) := by
    have hfree : twoDataFiles.node? (twoDataFiles.goal (Path.extend ⟨"db/catalog.json"⟩ ".tmp")) =
        none := by
      decide
    rintro (hsame | ⟨id, -, hnode⟩)
    · exact absurd hsame (by decide)
    · rw [hfree] at hnode
      cases hnode
  have hfind : twoDataFiles.find ⟨"db/b.csv"⟩ = .ok (.file 1) := by decide
  have hintact := hspared _ hb (clear_of_find ht hp hfind (by decide) (by decide) hdraft)
  have hread : twoDataFiles.read ⟨"db/b.csv"⟩ = .ok (.text "2\n") := by decide
  exact ⟨c', fs', rfl, hgone, hintact.read.trans hread, hknown, hintact⟩

/-- A data file at the place of a catalog. -/
def catalogInPlace : Files where
  entries := [(["db"], .directory), (["db", "catalog.json"], .file 0)]
  contents := [.text "1\n"]

/-- A data file at the place of the draft of a catalog. -/
def draftInPlace : Files where
  entries := [(["db"], .directory), (["db", "catalog.json.tmp"], .file 0)]
  contents := [.text "1\n"]

/-- A data file of which the draft of a catalog is a second name. -/
def draftLinked : Files where
  entries := [(["db"], .directory), (["db", "catalog.json.tmp"], .file 0), (["b.csv"], .file 0)]
  contents := [.text "1\n"]

def dataFileAlone : Files where
  entries := [(["x.csv"], .file 0)]
  contents := [.text "1\n"]

/-- Two tables may have one data file, and then it goes with the first of them.  A table may also have
its data file where the catalog is written or drafted, or its path may lead through a directory that is
still to be made for the catalog. -/
theorem not_intact_after_drop :
    (¬ ∀ (c : Catalog) (fs : Files) (name : String) (u : Table), Reachable c → fs.Sound →
      u ∈ c.list → u.name ≠ Name.canonical name →
        (c.drop fs name true).2.2.read u.dataFile = fs.read u.dataFile) ∧
    ∀ s ∈ [(catalogInPlace, "db/catalog.json"), (draftInPlace, "db/catalog.json.tmp"),
        (draftLinked, "b.csv"), (dataFileAlone, "db/../x.csv")],
      Reachable (firstOpened.withTables ⟨"a.csv"⟩ ⟨s.2⟩) ∧ s.1.Sound ∧
        ((firstOpened.withTables ⟨"a.csv"⟩ ⟨s.2⟩).drop s.1 "a" true).2.2.read ⟨s.2⟩ ≠
          s.1.read ⟨s.2⟩ := by
  constructor
  · intro hclaim
    have hc : Reachable (withTables {} ⟨"x.csv"⟩ ⟨"x.csv"⟩) := Reachable.inMemory.after _
    have hread := hclaim _ dataFileAlone "a" (.named 2 "b" [.named "x"] ⟨"x.csv"⟩) hc
      (Files.sound_of_all (by decide)) (Consistent.mem_list.mpr (by decide +kernel))
      (by decide +kernel)
    revert hread
    decide +kernel
  · intro s hs
    refine ⟨reachable_firstOpened.after _, Files.sound_of_all ?_, ?_⟩
    · revert s
      decide
    · revert s
      decide +kernel

end FlatQuery.Catalog
