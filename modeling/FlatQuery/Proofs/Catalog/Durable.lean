import FlatQuery.Proofs.Catalog.Run
import FlatQuery.Proofs.Catalog.Written

/-!
# What is written is there when the catalog is opened again

A catalog that is kept in a directory (`Kept`) is opened there, changed by operations that all
succeed, and nobody else touches its file.  At every point of such a run the file tells what the
catalog in memory knows (`InStep`), and so opening it again gives the same catalog
(`Kept.reopens_same`).  The one thing that must not happen is that a table is dropped together with its
data file where that file is the one that the catalog is kept in (`Operation.Spares`): the table may
name it, and then the catalog is deleted (`not_kept_reopens_same`).
-/

namespace FlatQuery.Catalog

/-! ### Runs without failures -/

/-- An operation does not delete the file at a path as the data file of a table. -/
def Operation.Spares (path : Path) (c : Catalog) (fs : Files) : Operation → Prop
  | .drop name true => ∀ t, c.find? name = some t → fs.place t.dataFile ≠ fs.place path
  | _ => True

section

variable [Snapshot.Format]

/-- The catalogs kept in a directory, and the files, along runs of operations that are allowed and
succeed.  In between the other files may change. -/
inductive Kept (allowed : Catalog → Files → Operation → Prop) (root : Path) : Catalog → Files → Prop
  /-- The run starts where there is no catalog, or where another run has left one. -/
  | opened {c : Catalog} {fs : Files} : fs.Sound → Snapshot.Format.isMoment fs.now = true →
    (fs.isThere (root.join Snapshot.fileName) = false ∨
      ∃ written, Reachable written ∧ written.StoredAt fs (root.join Snapshot.fileName)) →
    openIn fs root = .ok c → Kept allowed root c fs
  /-- Everything but the file of the catalog may change. -/
  | elsewhere {c : Catalog} {fs fs' : Files} : Kept allowed root c fs → fs'.Sound →
    Snapshot.Format.isMoment fs'.now = true →
    fs'.isThere (root.join Snapshot.fileName) = fs.isThere (root.join Snapshot.fileName) →
    fs'.read (root.join Snapshot.fileName) = fs.read (root.join Snapshot.fileName) →
    Kept allowed root c fs'
  /-- An operation is performed and succeeds. -/
  | performed {c : Catalog} {fs : Files} (op : Operation) : Kept allowed root c fs →
    allowed c fs op → (c.perform fs op).1.succeeded = true →
    Kept allowed root (c.perform fs op).2.1 (c.perform fs op).2.2

/-! ### Memory and file in step -/

/-- The file of the catalog tells what the catalog knows; there is none yet while it knows nothing. -/
structure InStep (root : Path) (c : Catalog) (fs : Files) : Prop where
  reachable : Reachable c
  location : c.location = some (root.join Snapshot.fileName)
  sound : fs.Sound
  moment : Snapshot.Format.isMoment fs.now = true
  stored : (fs.isThere (root.join Snapshot.fileName) = false ∧ c.tables = [] ∧ c.lastId = 0) ∨
    ∃ savedAt, Snapshot.Format.isMoment savedAt = true ∧
      fs.read (root.join Snapshot.fileName) = .ok (.text (Snapshot.Format.text (c.snapshot savedAt)))

variable {root : Path} {c c' : Catalog} {fs fs' : Files}

theorem InStep.opened [Snapshot.LawfulFormat] (hs : fs.Sound)
    (hmoment : Snapshot.Format.isMoment fs.now = true)
    (hfile : fs.isThere (root.join Snapshot.fileName) = false ∨
      ∃ written, Reachable written ∧ written.StoredAt fs (root.join Snapshot.fileName))
    (hopen : openIn fs root = .ok c) : InStep root c fs := by
  rcases hfile with hthere | ⟨written, hwritten, hstored⟩
  · have hc : Reachable c := .absent hthere hopen
    rw [openIn_of_absent hthere] at hopen
    cases hopen
    exact ⟨hc, rfl, hs, hmoment, .inl ⟨hthere, rfl, rfl⟩⟩
  · have hc : Reachable c := .stored hwritten hstored hopen
    obtain ⟨savedAt, hread⟩ := hstored
    obtain ⟨hreadable, rfl⟩ := (openIn_of_read hread).mp hopen
    obtain ⟨-, hsame⟩ := hwritten.consistent.restored (root.join Snapshot.fileName) savedAt
    have hsnapshot : (ofSnapshot (root.join Snapshot.fileName) (written.snapshot savedAt)).snapshot
        savedAt = written.snapshot savedAt := by
      rw [snapshot, hsame.tables, hsame.lastId]
      rfl
    refine ⟨hc, hsame.location, hs, hmoment, .inr ⟨savedAt, hreadable.moment, ?_⟩⟩
    rw [hsnapshot]
    exact hread

theorem InStep.flushed (h : InStep root c fs) (hc' : Reachable c')
    (hlocation : c'.location = c.location) (hflush : c'.flush fs = (.ok (), fs')) :
    InStep root c' fs' := by
  rw [h.location] at hlocation
  rw [flush, hlocation] at hflush
  refine ⟨hc', hlocation, Snapshot.sound_of_write h.sound hflush, ?_, .inr ⟨fs.now, h.moment, ?_⟩⟩
  · rw [Snapshot.now_of_write hflush]
    exact h.moment
  · exact Snapshot.read_of_write h.sound hflush

theorem InStep.removed {p : Path} (h : InStep root c fs) (hremove : fs.remove p = .ok fs')
    (hne : fs.place p ≠ fs.place (root.join Snapshot.fileName))
    (hread : ∃ content, fs.read (root.join Snapshot.fileName) = .ok content) : InStep root c fs' := by
  refine ⟨h.reachable, h.location, h.sound.remove hremove, ?_, .inr ?_⟩
  · rw [Files.now_of_remove hremove]
    exact h.moment
  · rcases h.stored with ⟨hthere, -, -⟩ | ⟨savedAt, hmoment, hstored⟩
    · obtain ⟨content, hread⟩ := hread
      obtain ⟨node, hnode, -⟩ := Outcome.bind_eq_ok_iff.mp hread
      rw [Files.isThere, hnode] at hthere
      cases hthere
    · exact ⟨savedAt, hmoment, Files.read_of_remove hne hstored hremove⟩

theorem InStep.exists_place (h : InStep root c fs) {t : Table} (ht : t ∈ c.tables) :
    ∃ place, fs.place (root.join Snapshot.fileName) = .ok place := by
  rcases h.stored with ⟨-, htables, -⟩ | ⟨savedAt, -, hread⟩
  · rw [htables] at ht
    cases ht
  · obtain ⟨place, -, hplace, -, -, -⟩ := Files.read_eq_ok_iff.mp hread
    exact ⟨place, hplace⟩

theorem InStep.register (h : InStep root c fs) {name : String} {columns : List Column} {file : Path}
    (hok : (c.register fs name columns file).1.isOk = true) :
    InStep root (c.register fs name columns file).2.1 (c.register fs name columns file).2.2 := by
  have hreachable : Reachable (c.register fs name columns file).2.1 :=
    h.reachable.step fs (.register name columns file)
  rcases register_cases c fs name columns file with ⟨-, hr⟩ | ⟨-, -, hr⟩ | ⟨-, -, t, -, hr⟩
  · rw [hr] at hok
    cases hok
  · rw [hr] at hok
    cases hok
  · rw [hr] at hok hreachable ⊢
    rcases hflush : (c.grow t).flush fs with ⟨e | ⟨⟩, fs'⟩
    · rw [hflush] at hok
      cases hok
    · exact h.flushed hreachable (location_grow c t) hflush

theorem InStep.drop (h : InStep root c fs) {name : String} {deleteFile : Bool}
    (hspares : (Operation.drop name deleteFile).Spares (root.join Snapshot.fileName) c fs)
    (hok : (c.drop fs name deleteFile).1.isOk = true) :
    InStep root (c.drop fs name deleteFile).2.1 (c.drop fs name deleteFile).2.2 := by
  have hreachable : Reachable (c.drop fs name deleteFile).2.1 :=
    h.reachable.step fs (.drop name deleteFile)
  rcases drop_cases c fs name deleteFile with
    ⟨-, hd⟩ | ⟨id, hid, ⟨e, fs', -, hd⟩ | ⟨fs', hflush, ⟨-, hd⟩ | ⟨t, hdelete, ht, hd⟩⟩⟩
  · rw [hd]
    exact h
  · rw [hd] at hok
    cases hok
  · rw [hd] at hreachable ⊢
    exact h.flushed hreachable (location_forget c name id) hflush
  · rw [hd] at hok hreachable ⊢
    have hforget : InStep root (c.forget name id) fs' :=
      h.flushed hreachable (location_forget c name id) hflush
    rcases discard_cases fs' t with ⟨fs'', hremove, hdiscard⟩ | ⟨-, hdiscard⟩ | ⟨e, -, -, hdiscard⟩
    · rw [hdiscard]
      -- there is a table, so the catalog has a file, and writing did not change where paths lead
      have hlocation : (c.forget name id).location = some (root.join Snapshot.fileName) := h.location
      obtain ⟨place, hplace⟩ := h.exists_place (List.mem_of_find?_eq_some ht)
      rw [flush, hlocation] at hflush
      have htree := Snapshot.sameTree_of_write hplace hflush
      have hfind : c.find? name = some t := by
        rw [find?, hid]
        exact ht
      subst hdelete
      have hread := Snapshot.read_of_write h.sound hflush
      refine hforget.removed hremove ?_ ⟨_, hread⟩
      intro heq
      rw [htree.place_eq_ok_iff.mpr hplace] at heq
      exact hspares t hfind ((htree.place_eq_ok_iff.mp heq).trans hplace.symm)
    · rw [hdiscard]
      exact hforget
    · rw [hdiscard] at hok
      cases hok

theorem InStep.perform (h : InStep root c fs) {op : Operation}
    (hspares : op.Spares (root.join Snapshot.fileName) c fs)
    (hok : (c.perform fs op).1.succeeded = true) :
    InStep root (c.perform fs op).2.1 (c.perform fs op).2.2 := by
  cases op with
  | register name columns file => exact h.register hok
  | drop name deleteFile => exact h.drop hspares hok
  | flush =>
    rcases hflush : c.flush fs with ⟨e | ⟨⟩, fs'⟩
    · rw [Catalog.perform, hflush] at hok
      cases hok
    · rw [Catalog.perform, hflush]
      exact h.flushed h.reachable rfl hflush
  | get name => exact h
  | byId id => exact h
  | has name => exact h
  | list => exact h

/-- Along a run that spares the file of the catalog, memory and file stay in step. -/
theorem Kept.inStep [Snapshot.LawfulFormat]
    (h : Kept (Operation.Spares (root.join Snapshot.fileName)) root c fs) : InStep root c fs := by
  induction h with
  | opened hs hmoment hfile hopen => exact .opened hs hmoment hfile hopen
  | elsewhere _ hs hmoment hthere hread ih =>
    refine ⟨ih.reachable, ih.location, hs, hmoment, ?_⟩
    rw [hthere, hread]
    exact ih.stored
  | performed op _ hspares hok ih => exact ih.perform hspares hok

/-! ### Opening again -/

/-- **What was done is not lost.**  At every point of a run of successful operations that spare the
file of the catalog, opening the catalog again gives the same catalog, provided that the numbers given
out fit 64 bits. -/
theorem Kept.reopens_same [Snapshot.LawfulFormat]
    (h : Kept (Operation.Spares (root.join Snapshot.fileName)) root c fs)
    (hid : c.lastId < UInt64.size) :
    ∃ d, openIn fs root = .ok d ∧ Same d c := by
  have hstep := h.inStep
  have hc := hstep.reachable.consistent
  rcases hstep.stored with ⟨hthere, htables, hlastId⟩ | ⟨savedAt, hmoment, hread⟩
  · refine ⟨_, openIn_of_absent hthere, ?_⟩
    exact (Consistent.empty _).same hc hstep.location.symm htables.symm hlastId.symm
  · have hreadable : (c.snapshot savedAt).Readable := (hc.fits hid).readable hmoment
    refine ⟨_, (openIn_of_read hread).mpr ⟨hreadable, rfl⟩, ?_⟩
    have hsame := (hc.restored (root.join Snapshot.fileName) savedAt).2
    rw [← hstep.location] at hsame
    exact hsame

end

/-! ### In an empty directory -/

theorem kept_firstOpened (allowed : Catalog → Files → Operation → Prop) :
    Kept allowed ⟨"db"⟩ firstOpened emptyDirectory := by
  refine .opened (Files.sound_of_all rfl) ?_ (.inl ?_) openIn_emptyDirectory
  · decide +kernel
  · decide +kernel

theorem Kept.performed_eq {allowed : Catalog → Files → Operation → Prop} {root : Path} {c : Catalog}
    {fs : Files} {op : Operation} {outcome : Reply × Catalog × Files} (h : Kept allowed root c fs)
    (houtcome : c.perform fs op = outcome) (hop : allowed c fs op)
    (hok : outcome.1.succeeded = true) : Kept allowed root outcome.2.1 outcome.2.2 := by
  subst houtcome
  exact h.performed op hop hok

/-- A table whose data file is the file of the catalog takes the catalog with it when it is dropped
with its data: all operations succeed, and the catalog that is opened then starts counting anew. -/
theorem not_kept_reopens_same :
    ¬ ∀ (root : Path) (c : Catalog) (fs : Files), Kept (fun _ _ _ => True) root c fs →
      c.lastId < UInt64.size → ∃ d, openIn fs root = .ok d ∧ Same d c := by
  intro hclaim
  let registered := firstOpened.perform emptyDirectory
    (.register "t" [.named "a"] ⟨"db/catalog.json"⟩)
  let dropped := registered.2.1.perform registered.2.2 (.drop "t" true)
  have hregistered : Kept (fun _ _ _ => True) ⟨"db"⟩ registered.2.1 registered.2.2 :=
    (kept_firstOpened _).performed_eq rfl trivial (by decide +kernel)
  have hdropped : Kept (fun _ _ _ => True) ⟨"db"⟩ dropped.2.1 dropped.2.2 :=
    hregistered.performed_eq rfl trivial (by decide +kernel)
  have hlast : dropped.2.1.lastId = 1 := by decide +kernel
  obtain ⟨d, hopen, hsame⟩ := hclaim ⟨"db"⟩ dropped.2.1 dropped.2.2 hdropped (by rw [hlast]; decide)
  have hgone : dropped.2.2.isThere ((⟨"db"⟩ : Path).join Snapshot.fileName) = false := by
    decide +kernel
  rw [openIn_of_absent hgone] at hopen
  cases hopen
  have hfirst := hsame.lastId
  rw [hlast] at hfirst
  cases hfirst

/-- A table is registered and dropped together with its data file, which was never there; then the
catalog is opened again. -/
theorem reopens_same_sample :
    let registered := firstOpened.perform emptyDirectory
      (.register "Student" [.named "sid"] ⟨"db/student.csv"⟩)
    let dropped := registered.2.1.perform registered.2.2 (.drop " STUDENT " true)
    dropped.2.1.lastId = 1 ∧ ∃ d, openIn dropped.2.2 ⟨"db"⟩ = .ok d ∧ Same d dropped.2.1 := by
  intro registered dropped
  have hregistered : Kept (Operation.Spares ((⟨"db"⟩ : Path).join Snapshot.fileName)) ⟨"db"⟩
      registered.2.1 registered.2.2 :=
    (kept_firstOpened _).performed_eq rfl trivial (by decide +kernel)
  have hspares : (Operation.drop " STUDENT " true).Spares
      ((⟨"db"⟩ : Path).join Snapshot.fileName) registered.2.1 registered.2.2 := by
    intro t ht
    have hfind : registered.2.1.find? " STUDENT " =
        some (.named 1 "student" [.named "sid"] ⟨"db/student.csv"⟩) := by
      decide +kernel
    obtain rfl := Option.some.inj (hfind.symm.trans ht)
    decide +kernel
  have hdropped : Kept (Operation.Spares ((⟨"db"⟩ : Path).join Snapshot.fileName)) ⟨"db"⟩
      dropped.2.1 dropped.2.2 :=
    hregistered.performed_eq rfl hspares (by decide +kernel)
  have hlast : dropped.2.1.lastId = 1 := by decide +kernel
  exact ⟨hlast, hdropped.reopens_same (by rw [hlast]; decide)⟩

end FlatQuery.Catalog
