import FlatQuery.Proofs.Catalog.Document
import FlatQuery.Proofs.Catalog.Steps

/-!
# Runs of operations on a catalog

The catalogs that sequences of operations lead to, from an empty catalog or from one that was opened
(`Reachable`).  All of them are consistent (`Reachable.consistent`), because each operation keeps a
catalog consistent and a stored catalog is restored consistent.  Numbers are never given out twice
(`id_le_lastId_after`), and so the ways to look a table up agree along every run
(`Reachable.lookups_agree`).
-/

namespace FlatQuery.Catalog

/-! ### Operations -/

/-- What can be asked of a catalog. -/
inductive Operation where
  | register (name : String) (columns : List Column) (file : Path)
  | drop (name : String) (deleteFile : Bool)
  | flush
  | get (name : String)
  | byId (id : Nat)
  | has (name : String)
  | list

/-- What a catalog answers. -/
inductive Reply where
  | registered (outcome : Except Error Table)
  | dropped (outcome : Except Error Bool)
  | flushed (outcome : Except Error Unit)
  | got (outcome : Except Error Table)
  | found (table : Option Table)
  | known (b : Bool)
  | listed (tables : List Table)

/-- Whether an operation came to what was asked for.  Looking up always does. -/
def Reply.succeeded : Reply → Bool
  | .registered outcome => outcome.isOk
  | .dropped outcome => outcome.isOk
  | .flushed outcome => outcome.isOk
  | _ => true

section

variable [Snapshot.Format]

/-- Performs an operation: the answer, and the catalog and the files as they are afterwards. -/
def perform (c : Catalog) (fs : Files) : Operation → Reply × Catalog × Files
  | .register name columns file => (c.register fs name columns file).map .registered id
  | .drop name deleteFile => (c.drop fs name deleteFile).map .dropped id
  | .flush => (.flushed (c.flush fs).1, c, (c.flush fs).2)
  | .get name => (.got (c.get name), c, fs)
  | .byId id => (.found (c.byId? id), c, fs)
  | .has name => (.known (c.has name), c, fs)
  | .list => (.listed c.list, c, fs)

/-- The catalog after operations, each with the files that it meets. -/
def after (c : Catalog) (ops : List (Files × Operation)) : Catalog :=
  ops.foldl (fun c op => (c.perform op.1 op.2).2.1) c

/-- The catalogs that runs lead to. -/
inductive Reachable : Catalog → Prop
  /-- A catalog that is not kept in a file starts empty. -/
  | inMemory : Reachable {}
  /-- So does one that is opened where there is none. -/
  | absent {fs : Files} {root : Path} {c : Catalog} :
    fs.isThere (root.join Snapshot.fileName) = false → openIn fs root = .ok c → Reachable c
  /-- A catalog that is opened where another run has left one. -/
  | stored {fs : Files} {root : Path} {written c : Catalog} : Reachable written →
    written.StoredAt fs (root.join Snapshot.fileName) → openIn fs root = .ok c → Reachable c
  /-- What an operation leaves, whatever files it meets. -/
  | step {c : Catalog} (fs : Files) (op : Operation) : Reachable c → Reachable (c.perform fs op).2.1

variable {c : Catalog}

theorem after_append (c : Catalog) (earlier later : List (Files × Operation)) :
    c.after (earlier ++ later) = (c.after earlier).after later :=
  List.foldl_append

theorem Reachable.after (hc : Reachable c) (ops : List (Files × Operation)) :
    Reachable (c.after ops) := by
  induction ops generalizing c with
  | nil => exact hc
  | cons op rest ih => exact ih (hc.step op.1 op.2)

/-! ### Consistency -/

theorem Consistent.perform (hc : c.Consistent) (fs : Files) (op : Operation) :
    (c.perform fs op).2.1.Consistent := by
  cases op with
  | register name columns file => exact hc.register fs name columns file
  | drop name deleteFile => exact hc.drop fs name deleteFile
  | flush => exact hc
  | get name => exact hc
  | byId id => exact hc
  | has name => exact hc
  | list => exact hc

theorem Reachable.consistent [Snapshot.LawfulFormat] (hc : Reachable c) : c.Consistent := by
  induction hc with
  | inMemory => exact .empty none
  | absent hthere hopen =>
    rw [openIn_of_absent hthere] at hopen
    cases hopen
    exact .empty _
  | stored _ hstored hopen ih =>
    obtain ⟨savedAt, hread⟩ := hstored
    obtain ⟨-, rfl⟩ := (openIn_of_read hread).mp hopen
    exact (ih.restored _ savedAt).1
  | step fs op _ ih => exact ih.perform fs op

/-! ### Numbers -/

theorem lastId_le_perform (c : Catalog) (fs : Files) (op : Operation) :
    c.lastId ≤ (c.perform fs op).2.1.lastId := by
  cases op with
  | register name columns file =>
    change _ ≤ (c.register fs name columns file).2.1.lastId
    rcases register_cases c fs name columns file with ⟨-, h⟩ | ⟨-, -, h⟩ | ⟨-, -, t, rfl, h⟩
    · rw [h]
    · rw [h]
    · rw [h]
      exact Nat.le_succ c.lastId
  | drop name deleteFile =>
    change _ ≤ (c.drop fs name deleteFile).2.1.lastId
    rw [drop_catalog]
    cases c.index.lookup (Name.canonical name) with
    | none => exact Nat.le_refl _
    | some id => exact Nat.le_refl _
  | flush => exact Nat.le_refl _
  | get name => exact Nat.le_refl _
  | byId id => exact Nat.le_refl _
  | has name => exact Nat.le_refl _
  | list => exact Nat.le_refl _

theorem lastId_le_after (c : Catalog) (ops : List (Files × Operation)) :
    c.lastId ≤ (c.after ops).lastId := by
  induction ops generalizing c with
  | nil => exact Nat.le_refl _
  | cons op rest ih => exact Nat.le_trans (c.lastId_le_perform op.1 op.2) (ih _)

/-- A number that was in use at some point of a run has been given out at every later one. -/
theorem Reachable.id_le_lastId_after [Snapshot.LawfulFormat] (hc : Reachable c)
    {earlier ops : List (Files × Operation)}
    (hearlier : earlier <+: ops) {t : Table} (ht : t ∈ (c.after earlier).tables) :
    t.id ≤ (c.after ops).lastId := by
  obtain ⟨later, rfl⟩ := hearlier
  rw [after_append]
  exact Nat.le_trans ((hc.after earlier).consistent.numbered t ht).2 (lastId_le_after _ later)

/-- What registering answers, or what it adds, is the table with the next number. -/
theorem Consistent.eq_next_of_register (hc : c.Consistent) {fs : Files} {name : String}
    {columns : List Column} {file : Path} {t : Table}
    (ht : (c.register fs name columns file).1 = .ok t ∨
      t ∈ (c.register fs name columns file).2.1.tables ∧ t ∉ c.tables) :
    t = c.next name columns file := by
  rcases register_cases c fs name columns file with ⟨-, h⟩ | ⟨-, -, h⟩ | ⟨-, -, u, rfl, h⟩
  · rw [h] at ht
    rcases ht with ht | ⟨ht, hnew⟩
    · cases ht
    · exact absurd ht hnew
  · rw [h] at ht
    rcases ht with ht | ⟨ht, hnew⟩
    · cases ht
    · exact absurd ht hnew
  · rw [h] at ht
    rcases ht with ht | ⟨ht, hnew⟩
    · cases hflush : ((c.grow (c.next name columns file)).flush fs).1 with
      | error e =>
        simp only [hflush] at ht
        cases ht
      | ok _ =>
        simp only [hflush] at ht
        exact (Except.ok.inj ht).symm
    · simp only [hc.tables_grow_next, List.mem_append, List.mem_singleton] at ht
      exact ht.resolve_left hnew

/-! ### The invariant of a run -/

/-- **A run keeps a catalog in order.**  After any operations on a catalog that was opened or came
out of a run, index and tables tell the same, all ways to look a table up agree, the list of the
tables is strictly increasing by name, and the next table that is registered gets a number above all
that were in use at any point of the run. -/
theorem Reachable.lookups_agree [Snapshot.LawfulFormat] (hc : Reachable c)
    (ops : List (Files × Operation)) :
    (c.after ops).Consistent ∧
    (∀ name t, (c.after ops).get name = .ok t ↔
      t ∈ (c.after ops).list ∧ t.name = Name.canonical name) ∧
    (∀ id t, (c.after ops).byId? id = some t ↔ t ∈ (c.after ops).list ∧ t.id = id) ∧
    (∀ name, (c.after ops).has name = true ↔
      ∃ t ∈ (c.after ops).list, t.name = Name.canonical name) ∧
    (c.after ops).list.Pairwise (·.name < ·.name) ∧
    ∀ fs name columns file t,
      ((c.after ops).register fs name columns file).1 = .ok t ∨
        t ∈ ((c.after ops).register fs name columns file).2.1.tables ∧ t ∉ (c.after ops).tables →
      ∀ earlier, earlier <+: ops → ∀ u ∈ (c.after earlier).tables, u.id < t.id := by
  have hafter : (c.after ops).Consistent := (hc.after ops).consistent
  refine ⟨hafter, ?_, ?_, ?_, hafter.list_increasing, ?_⟩
  · intro name t
    rw [hafter.get_eq_ok_iff, Consistent.mem_list]
  · intro id t
    rw [hafter.byId?_eq_some_iff, Consistent.mem_list]
  · intro name
    simp only [hafter.has_eq_true_iff, Consistent.mem_list]
  · intro fs name columns file t ht earlier hearlier u hu
    have hid : t.id = (c.after ops).lastId + 1 := by
      rw [hafter.eq_next_of_register ht]
      rfl
    have hle := hc.id_le_lastId_after hearlier hu
    omega

end

/-- Two tables are registered, the first is dropped in between, and the second is listed. -/
theorem lookups_agree_sample :
    let ops : List (Files × Operation) := [({}, .register " Student" [.named "sid"] ⟨"s.csv"⟩),
      ({}, .drop "STUDENT" false), ({}, .register "Course" [.named "cid"] ⟨"c.csv"⟩)]
    (Catalog.after {} ops).Consistent ∧
      (Catalog.after {} ops).get "COURSE" = .ok (.named 2 "course" [.named "cid"] ⟨"c.csv"⟩) ∧
      .named 2 "course" [.named "cid"] ⟨"c.csv"⟩ ∈ (Catalog.after {} ops).list := by
  intro ops
  obtain ⟨hconsistent, hget, -⟩ := Reachable.inMemory.lookups_agree ops
  have hcourse : (Catalog.after {} ops).get "COURSE" =
      .ok (.named 2 "course" [.named "cid"] ⟨"c.csv"⟩) := by
    decide +kernel
  exact ⟨hconsistent, hcourse, ((hget _ _).mp hcourse).1⟩

/-! ### In an empty directory -/

def emptyDirectory : Files :=
  { entries := [(["db"], .directory)] }

def firstOpened : Catalog :=
  { location := some ⟨"db/catalog.json"⟩ }

theorem openIn_emptyDirectory : openIn emptyDirectory ⟨"db"⟩ = .ok firstOpened := by
  refine openIn_of_absent ?_
  decide +kernel

theorem reachable_firstOpened : Reachable firstOpened := by
  refine .absent ?_ openIn_emptyDirectory
  decide +kernel

end FlatQuery.Catalog
