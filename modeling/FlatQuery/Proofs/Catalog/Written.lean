import FlatQuery.Catalog.Store
import FlatQuery.Proofs.Files.Place

/-!
# Snapshots written

A snapshot that has been written stands at its path (`Snapshot.read_of_write`).  In a directory that
is there already, writing it either replaces what stood at the path or leaves all files as they were
(`Snapshot.write_cases`).
-/

namespace FlatQuery

namespace Snapshot

/-- The name under which a snapshot is written first. -/
def draftName : String := "catalog.json.tmp"

theorem isName_fileName : Path.IsName fileName.text := by
  constructor
  all_goals decide

theorem isName_draftName : Path.IsName draftName := by
  constructor
  all_goals decide

theorem asksDirectory_fileName (root : Path) : (root.join fileName).asksDirectory = false :=
  Path.asksDirectory_join isName_fileName root

theorem extend_fileName (root : Path) : (root.join fileName).extend ".tmp" = root.join ⟨draftName⟩ :=
  Path.extend_join isName_fileName root isName_draftName

/-! ### Writing -/

variable [Format] {fs fs' : Files} {p : Path} {s : Snapshot}

theorem write_eq_ok_iff : write fs p s = (.ok (), fs') ↔ ∃ made drafted,
    fs.createParents p = .ok made ∧
      made.write (p.extend ".tmp") (.text (Format.text s)) = .ok drafted ∧
      drafted.rename (p.extend ".tmp") p = .ok fs' := by
  simp only [Files.createParents_eq_ok_iff]
  rw [write]
  cases hmade : fs.makeParents p with
  | mk outcome made =>
    cases outcome with
    | error e => simp
    | ok _ =>
      cases hdrafted : made.write (p.extend ".tmp") (.text (Format.text s)) with
      | error e => simp [hdrafted]
      | ok drafted =>
        cases hrename : drafted.rename (p.extend ".tmp") p with
        | error e => simp [hdrafted, hrename]
        | ok renamed => simp [hdrafted, hrename]

theorem sound_of_write (hs : fs.Sound) (h : write fs p s = (.ok (), fs')) : fs'.Sound := by
  obtain ⟨made, drafted, hmade, hdrafted, hrename⟩ := (write_eq_ok_iff).mp h
  have hsound : made.Sound := (Files.made_of_createSteps hmade).sound hs
  exact (hsound.write hdrafted).rename hrename

theorem now_of_write (h : write fs p s = (.ok (), fs')) : fs'.now = fs.now := by
  obtain ⟨made, drafted, hmade, hdrafted, hrename⟩ := (write_eq_ok_iff).mp h
  rw [Files.now_of_rename hrename, Files.now_of_write hdrafted,
    (Files.made_of_createSteps hmade).now]

/-- **A written snapshot stands at its path.** -/
theorem read_of_write (hs : fs.Sound) (h : write fs p s = (.ok (), fs')) :
    fs'.read p = .ok (.text (Format.text s)) := by
  obtain ⟨made, drafted, hmade, hdrafted, hrename⟩ := (write_eq_ok_iff).mp h
  have hsound : made.Sound := (Files.made_of_createSteps hmade).sound hs
  exact Files.read_of_rename (Files.read_of_write hsound hdrafted) hrename

theorem sameTree_of_write {place : Place} (hplace : fs.place p = .ok place)
    (h : write fs p s = (.ok (), fs')) : Files.SameTree fs fs' := by
  obtain ⟨made, drafted, hmade, hdrafted, hrename⟩ := (write_eq_ok_iff).mp h
  rw [Files.createParents_of_place hplace] at hmade
  obtain rfl := Except.ok.inj hmade
  exact (Files.sameTree_of_write hdrafted).trans (Files.sameTree_of_rename hrename)

/-- **All or nothing.**  In a directory, and where no directory is in the way, a snapshot is written,
or all files are as they were. -/
theorem write_cases {root : Path} {dir : Place} (hs : fs.Sound) (hroot : fs.place root = .ok dir)
    (hdir : fs.node? dir = some .directory)
    (hfile : fs.node? (dir ++ [fileName.text]) ≠ some .directory) (s : Snapshot) :
    (∃ fs', write fs (root.join fileName) s = (.ok (), fs')) ∨
      write fs (root.join fileName) s = (.error (.file .isADirectory), fs) := by
  have hplace : fs.place (root.join fileName) = .ok (dir ++ [fileName.text]) :=
    Files.place_join isName_fileName hroot hdir
  have hdraft : fs.place (root.join ⟨draftName⟩) = .ok (dir ++ [draftName]) :=
    Files.place_join isName_draftName hroot hdir
  have hmade := Files.createParents_of_place hplace
  have hparents : fs.makeParents (root.join fileName) = (.ok (), fs) :=
    Files.createParents_eq_ok_iff.mp hmade
  have hasks : (root.join ⟨draftName⟩).asksDirectory = false :=
    Path.asksDirectory_join isName_draftName root
  -- only a directory under the name of the draft can stop the write, before anything changes
  by_cases hnode : fs.node? (dir ++ [draftName]) = some .directory
  · right
    have hwrite : fs.write (root.join ⟨draftName⟩) (.text (Format.text s)) = .error .isADirectory := by
      rw [Files.write, hdraft, Outcome.ok_bind, hnode]
    simp only [write, hparents, extend_fileName, hwrite]
  · left
    obtain ⟨drafted, hdrafted⟩ :
        ∃ drafted, fs.write (root.join ⟨draftName⟩) (.text (Format.text s)) = .ok drafted := by
      cases hfree : fs.node? (dir ++ [draftName]) with
      | none => exact ⟨_, Files.write_eq_ok_iff.mpr ⟨_, hdraft, hasks, .inr ⟨hfree, rfl⟩⟩⟩
      | some node =>
        cases node with
        | directory => exact absurd hfree hnode
        | file id => exact ⟨_, Files.write_eq_ok_iff.mpr ⟨_, hdraft, hasks, .inl ⟨id, hfree, rfl⟩⟩⟩
    have htree := Files.sameTree_of_write hdrafted
    obtain ⟨place, id, hplace', hid, -, -⟩ :=
      Files.read_eq_ok_iff.mp (Files.read_of_write hs hdrafted)
    have hfree : drafted.node? (dir ++ [fileName.text]) ≠ some .directory := by
      intro h
      exact hfile ((htree.directory _).mp h)
    have hrename : drafted.rename (root.join ⟨draftName⟩) (root.join fileName) =
        .ok (drafted.move place (dir ++ [fileName.text]) id) :=
      Files.rename_eq_ok_iff.mpr
        ⟨place, id, _, hplace', hid, hasks, htree.place_eq_ok_iff.mpr hplace,
          asksDirectory_fileName root, hfree, rfl⟩
    rw [← extend_fileName] at hdrafted hrename
    exact ⟨_, (write_eq_ok_iff).mpr ⟨fs, drafted, hmade, hdrafted, hrename⟩⟩

end Snapshot

end FlatQuery
