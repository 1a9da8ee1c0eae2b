import FlatQuery.Catalog.Document
import FlatQuery.Proofs.Catalog.Written
import FlatQuery.Proofs.Files.Confined

/-!
# Snapshots that are being written

A snapshot is written under another name and then moved.  The files that there are on the way, if the
writing fails at a step or stops in the middle of one, are listed by `Snapshot.Underway`.  In all of
them the entry at the path is the one from before (`Snapshot.write_atomic`), with two conditions that
cannot be dropped (`Snapshot.write_not_atomic`): a path may lead through its own place, and then that
place is one of the directories to be made; and a file that is left under the other name may have a
second name, and then it is written to under that name as well.  The places where anything can change
on the way are those of `Snapshot.Drafts`.
-/

namespace FlatQuery.Snapshot

open Files (AsBefore Confined)

theorem isName_extension : Path.IsName ".tmp" := by
  constructor
  all_goals decide

/-- That writing a snapshot at a path may change what stands at a place before it is moved there: the
other name leads there, or its file has a second name there, or a directory is missing there on the way
to the path. -/
def Drafts (fs : Files) (p : Path) (place : Place) : Prop :=
  fs.SameFile place (fs.goal (p.extend ".tmp")) ∨ fs.standing? place = none ∧ fs.OnTheWay p place

section

variable [Format] {fs fs' : Files} {p : Path} {s : Snapshot}

/-- The files that there may be while a snapshot is written: some of the missing directories are made;
or all are, and the first bytes are written under the other name. -/
inductive Underway (fs : Files) (p : Path) (s : Snapshot) : Files → Prop
  | parents (steps : List String) (h : steps <+: p.walk.dropLast) :
    Underway fs p s (fs.makeSteps (fs.start p) steps).2
  | draft (made drafted : Files) (written : Content) (hmade : fs.makeParents p = (.ok (), made))
    (hwritten : written.bytes <+: (Content.text (Format.text s)).bytes)
    (hdrafted : made.write (p.extend ".tmp") written = .ok drafted) : Underway fs p s drafted

theorem underway_of_write {e : Catalog.Error} (h : write fs p s = (.error e, fs')) :
    Underway fs p s fs' := by
  have hparents : Underway fs p s (fs.makeParents p).2 := .parents p.walk.dropLast List.prefix_rfl
  rw [write] at h
  cases hmade : fs.makeParents p with
  | mk outcome made =>
    rw [hmade] at h hparents
    cases outcome with
    | error e =>
      obtain rfl := (Prod.mk.inj h).2
      exact hparents
    | ok _ =>
      cases hdrafted : made.write (p.extend ".tmp") (.text (Format.text s)) with
      | error e =>
        simp only [hdrafted] at h
        obtain rfl := (Prod.mk.inj h).2
        exact hparents
      | ok drafted =>
        have hdraft : Underway fs p s drafted :=
          .draft made drafted _ hmade List.prefix_rfl hdrafted
        cases hrename : drafted.rename (p.extend ".tmp") p with
        | error e =>
          simp only [hdrafted, hrename] at h
          obtain rfl := (Prod.mk.inj h).2
          exact hdraft
        | ok renamed =>
          simp only [hdrafted, hrename] at h
          cases h

theorem Underway.grown (h : Underway fs p s fs') : Files.Grown fs fs' := by
  cases h with
  | parents steps => exact (Files.made_makeSteps fs (fs.start p) steps).grown
  | draft made drafted written hmade _ hdrafted =>
    exact (Files.made_of_makeParents hmade).grown.trans (Files.grown_of_write hdrafted).1

/-- On the way every place but that of the other name is as before, or a missing directory. -/
theorem Underway.asBefore (hs : fs.Sound) (hsole : fs.Sole (fs.goal (p.extend ".tmp")))
    (h : Underway fs p s fs') {place : Place} (hne : place ≠ fs.goal (p.extend ".tmp")) :
    AsBefore fs fs' p place := by
  cases h with
  | parents steps hsteps =>
    exact (Files.made_makeSteps fs (fs.start p) steps).asBefore hsteps place
  | draft made drafted written hmade _ hdrafted =>
    have hparents := Files.made_of_makeParents hmade
    refine (hparents.asBefore List.prefix_rfl place).of_eq ?_
    refine Files.standing?_of_write (hparents.sound hs) hdrafted fun hsame => ?_
    rw [Files.goal_congr hparents.current] at hsame
    exact hne (hsole.eq_of_sameFile (hparents.sameFile hsame))

/-- That a snapshot is written at a path whole or not at all. -/
structure Atomic (fs : Files) (p : Path) (s : Snapshot) : Prop where
  /-- On the way no place but that of the other name has changed, directories apart that were
  missing. -/
  elsewhere : ∀ fs' place, Underway fs p s fs' → place ≠ fs.goal (p.extend ".tmp") →
    AsBefore fs fs' p place
  /-- On the way the entry at the path is the one from before, or the path leads through its own
  place, where nothing stood. -/
  entry : ∀ fs', Underway fs p s fs' →
    fs'.standing? (fs.goal p) = fs.standing? (fs.goal p) ∨
      fs.standing? (fs.goal p) = none ∧ fs'.standing? (fs.goal p) = some .directory ∧
        fs.OnTheWay p (fs.goal p)
  /-- What could be read at the path can be read on the way. -/
  readable : ∀ fs' c, Underway fs p s fs' → fs.read p = .ok c → fs'.read p = .ok c
  /-- An attempt that fails ends on the way. -/
  failed : ∀ e fs', write fs p s = (.error e, fs') → Underway fs p s fs'
  /-- An attempt that succeeds puts the snapshot at the path, and the other name is gone. -/
  written : ∀ fs', write fs p s = (.ok (), fs') →
    fs'.read p = .ok (.text (Format.text s)) ∧
      (∃ id, fs'.standing? (fs.goal p) = some (.file id (.text (Format.text s)))) ∧
      fs'.standing? (fs.goal (p.extend ".tmp")) = none ∧
      ∀ place, place ≠ fs.goal p → place ≠ fs.goal (p.extend ".tmp") → AsBefore fs fs' p place

/-- **All or nothing.**  Whatever step fails or is interrupted, the entry at the path is the one from
before. -/
theorem write_atomic (hs : fs.Sound) (hsole : fs.Sole (fs.goal (p.extend ".tmp"))) (s : Snapshot) :
    Atomic fs p s := by
  have hne : fs.goal (p.extend ".tmp") ≠ fs.goal p := Files.goal_extend_ne isName_extension fs p
  have hentry : ∀ fs', Underway fs p s fs' → AsBefore fs fs' p (fs.goal p) :=
    fun fs' h => h.asBefore hs hsole hne.symm
  refine ⟨fun fs' place h hplace => h.asBefore hs hsole hplace, hentry, fun fs' c h hread => ?_,
    fun e fs' h => underway_of_write h, fun fs' h => ?_⟩
  · refine h.grown.read ?_ hread
    rcases hentry fs' h with hsame | ⟨hnone, -⟩
    · exact hsame
    · -- a file was read, so something stood there
      obtain ⟨place, id, hplace, hnode, -⟩ := Files.read_eq_ok_iff.mp hread
      obtain rfl := Files.eq_goal_of_place hplace
      rw [Files.standing?_of_file hnode] at hnone
      cases hnone
  · have hread := read_of_write hs h
    obtain ⟨made, drafted, hmade, hdrafted, hrename⟩ := write_eq_ok_iff.mp h
    rw [Files.createParents_eq_ok_iff] at hmade
    have hparents := Files.made_of_makeParents hmade
    have hdraft : Underway fs p s drafted := .draft made drafted _ hmade List.prefix_rfl hdrafted
    have hmadeGoal : ∀ q, made.goal q = fs.goal q := Files.goal_congr hparents.current
    have hgoal : ∀ q, drafted.goal q = fs.goal q := Files.goal_congr hdraft.grown.current
    obtain ⟨id, hid⟩ := Files.standing?_of_write_self (hparents.sound hs) hdrafted
    -- the draft has no other name, as it had none before it was written
    have hother : ¬ drafted.SameFile (drafted.goal p) (drafted.goal (p.extend ".tmp")) := by
      intro hsame
      rw [hgoal, hgoal, ← hmadeGoal (p.extend ".tmp")] at hsame
      have hmadeSame := hsame.of_write (hparents.sound hs) hdrafted
      rw [hmadeGoal] at hmadeSame
      exact hne (hsole.eq_of_sameFile (hparents.sameFile hmadeSame)).symm
    have hmoved := Files.standing?_of_rename hrename hother
    rw [hgoal, hgoal] at hmoved
    rw [hmadeGoal] at hid
    obtain ⟨hgone, hthere⟩ := hmoved
    refine ⟨hread, ⟨id, hthere.trans hid⟩, hgone, fun place hpath hother => ?_⟩
    refine (hdraft.asBefore hs hsole hother).of_eq ?_
    exact Files.standing?_of_rename_other hrename (by rwa [hgoal]) (by rwa [hgoal])

/-! ### What can change -/

theorem Underway.confined (hs : fs.Sound) (h : Underway fs p s fs') :
    Confined (Drafts fs p) fs fs' := by
  cases h with
  | parents steps hsteps =>
    exact ((Files.made_makeSteps fs (fs.start p) steps).confined hsteps).mono fun _ => .inr
  | draft made drafted written hmade _ hdrafted =>
    have hparents := Files.made_of_makeParents hmade
    have hmakes : Confined (Drafts fs p) fs made :=
      (hparents.confined List.prefix_rfl).mono fun _ => .inr
    refine hmakes.trans ((Files.confined_of_write (hparents.sound hs) hdrafted).mono ?_)
    intro place hsame
    rw [Files.goal_congr hparents.current] at hsame
    exact .inl (hparents.sameFile hsame)

/-- A snapshot that has been written changed what stands at its path as well, and nothing else. -/
theorem confined_of_write (hs : fs.Sound) (h : write fs p s = (.ok (), fs')) :
    Confined (fun place => Drafts fs p place ∨ place = fs.goal p) fs fs' := by
  obtain ⟨made, drafted, hmade, hdrafted, hrename⟩ := write_eq_ok_iff.mp h
  rw [Files.createParents_eq_ok_iff] at hmade
  have hdraft : Underway fs p s drafted := .draft made drafted _ hmade List.prefix_rfl hdrafted
  have hdrafts : Confined (fun place => Drafts fs p place ∨ place = fs.goal p) fs drafted :=
    (hdraft.confined hs).mono fun _ => .inl
  refine hdrafts.trans ((Files.confined_of_rename hrename).mono fun place hplace => ?_)
  rw [Files.goal_congr hdraft.grown.current, Files.goal_congr hdraft.grown.current] at hplace
  rcases hplace with hother | hpath
  · exact .inl (.inl (.inl hother))
  · exact .inr hpath

end

/-! ### Samples -/

/-- A directory with a snapshot, and beside it what is left of one that was not finished. -/
def leftover : Files where
  entries := [(["db"], .directory), (["db", "catalog.json"], .file 0),
    (["db", "catalog.json.tmp"], .file 1)]
  contents := [.text "old", .text "to"]

def linked : Files where
  entries := [(["catalog.json"], .file 0), (["catalog.json.tmp"], .file 0)]
  contents := [.text "old"]

def vacant : Snapshot where
  lastId := 0
  savedAt := "2026-01-01T00:00:00Z"
  tables := []

theorem write_atomic_sample :
    leftover.Sound ∧ leftover.Sole (leftover.goal (Path.extend ⟨"db/catalog.json"⟩ ".tmp")) ∧
      (write leftover ⟨"db/catalog.json"⟩ vacant).1 = .ok () ∧
      Atomic leftover ⟨"db/catalog.json"⟩ vacant := by
  have hs : leftover.Sound := Files.sound_of_all (by decide)
  have hgoal : leftover.goal (Path.extend ⟨"db/catalog.json"⟩ ".tmp") = ["db", "catalog.json.tmp"] := by
    decide
  have hsole : leftover.Sole (leftover.goal (Path.extend ⟨"db/catalog.json"⟩ ".tmp")) := by
    rw [hgoal]
    have hnode : leftover.node? ["db", "catalog.json.tmp"] = some (.file 1) := by decide
    exact Files.sole_of_all hnode (by decide)
  exact ⟨hs, hsole, rfl, write_atomic hs hsole vacant⟩

/-- Where a path leads through its own place, a directory is made there and stays, although the
snapshot is not written; and a file with two names is written to under both. -/
theorem write_not_atomic :
    ((write {} ⟨"catalog.json/../catalog.json"⟩ vacant).1 = .error (.file .isADirectory) ∧
      Files.standing? {} ["catalog.json"] = none ∧
      Files.goal {} ⟨"catalog.json/../catalog.json"⟩ = ["catalog.json"] ∧
      (write {} ⟨"catalog.json/../catalog.json"⟩ vacant).2.standing? ["catalog.json"] =
        some .directory) ∧
    ∃ drafted, Underway linked ⟨"catalog.json"⟩ vacant drafted ∧
      linked.read ⟨"catalog.json"⟩ = .ok (.text "old") ∧
      drafted.read ⟨"catalog.json"⟩ = .ok (.text "") := by
  refine ⟨⟨rfl, rfl, by decide, rfl⟩, linked.setContent 0 (.text ""), ?_, rfl, rfl⟩
  exact .draft linked _ (.text "") rfl List.nil_prefix rfl

end FlatQuery.Snapshot
