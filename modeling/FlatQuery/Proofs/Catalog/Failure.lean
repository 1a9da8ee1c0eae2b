import FlatQuery.Proofs.Catalog.Run

/-!
# Operations that fail

Registering and dropping change the catalog in memory before they touch a file, and nothing undoes the
change when the file cannot be written.  So a failure is one of two things (`Reachable.failed_cases`):
registering was refused and everything is as before; or a file could not be written or removed, and
the catalog in memory is the one that success would have left, with one table more or one less
(`OneMore`).
-/

namespace FlatQuery.Catalog

variable {c d : Catalog} {t : Table}

/-! ### One table apart -/

/-- A catalog knows one table that another does not know, and apart from this table both answer
alike. -/
structure OneMore (t : Table) (c d : Catalog) : Prop where
  unknown : c.has t.name = false
  location : d.location = c.location
  get : ∀ name, d.get name = if Name.canonical name = t.name then .ok t else c.get name
  byId : ∀ id, d.byId? id = if id = t.id then some t else c.byId? id
  has : ∀ name, d.has name = (decide (Name.canonical name = t.name) || c.has name)
  list : ∀ u, u ∈ d.list ↔ u = t ∨ u ∈ c.list

theorem OneMore.of_mem_iff (hc : c.Consistent) (hd : d.Consistent) (hlocation : d.location = c.location)
    (ht : t ∉ c.tables) (htables : ∀ u, u ∈ d.tables ↔ u = t ∨ u ∈ c.tables) : OneMore t c d := by
  have htd : t ∈ d.tables := (htables t).mpr (.inl rfl)
  -- all lookups by name go back to this one; that `t` alone has its name is what decides
  have hfind : ∀ name, d.find? name =
      if Name.canonical name = t.name then some t else c.find? name := by
    intro name
    refine Option.ext fun u => ?_
    rw [hd.find?_eq_some_iff, htables]
    by_cases hname : Name.canonical name = t.name
    · rw [if_pos hname, hname, Option.some.injEq]
      constructor
      · rintro ⟨hu, huname⟩
        exact (hd.eq_of_name ((htables u).mpr hu) htd huname).symm
      · rintro rfl
        exact ⟨.inl rfl, rfl⟩
    · rw [if_neg hname, hc.find?_eq_some_iff]
      constructor
      · rintro ⟨rfl | hu, huname⟩
        · exact absurd huname.symm hname
        · exact ⟨hu, huname⟩
      · rintro ⟨hu, huname⟩
        exact ⟨.inr hu, huname⟩
  constructor
  case unknown =>
    rw [Bool.eq_false_iff]
    intro hhas
    obtain ⟨u, hu, huname⟩ := hc.has_eq_true_iff.mp hhas
    rw [hd.canonical_name htd] at huname
    rw [hd.eq_of_name ((htables u).mpr (.inr hu)) htd huname] at hu
    exact ht hu
  case location => exact hlocation
  case get =>
    intro name
    rw [Catalog.get, hfind]
    by_cases hname : Name.canonical name = t.name
    · rw [if_pos hname, if_pos hname]
    · rw [if_neg hname, if_neg hname, Catalog.get]
  case byId =>
    intro id
    refine Option.ext fun u => ?_
    rw [hd.byId?_eq_some_iff, htables]
    by_cases hid : id = t.id
    · rw [if_pos hid, hid, Option.some.injEq]
      constructor
      · rintro ⟨hu, huid⟩
        exact (hd.eq_of_id ((htables u).mpr hu) htd huid).symm
      · rintro rfl
        exact ⟨.inl rfl, rfl⟩
    · rw [if_neg hid, hc.byId?_eq_some_iff]
      constructor
      · rintro ⟨rfl | hu, huid⟩
        · exact absurd huid.symm hid
        · exact ⟨hu, huid⟩
      · rintro ⟨hu, huid⟩
        exact ⟨.inr hu, huid⟩
  case has =>
    intro name
    rw [hd.has_eq_isSome, hc.has_eq_isSome, hfind]
    by_cases hname : Name.canonical name = t.name
    · rw [if_pos hname, decide_eq_true hname, Option.isSome_some, Bool.true_or]
    · rw [if_neg hname, decide_eq_false hname, Bool.false_or]
  case list =>
    intro u
    rw [Consistent.mem_list, Consistent.mem_list, htables]

theorem Consistent.oneMore_grow (hc : c.Consistent) {name : String} {columns : List Column}
    (file : Path) (hcolumns : columns ≠ []) (hnew : c.has name = false) :
    OneMore (c.next name columns file) c (c.grow (c.next name columns file)) := by
  refine .of_mem_iff hc (hc.grow_next file hcolumns hnew) rfl ?_ ?_
  · intro hmem
    have hle := (hc.numbered _ hmem).2
    exact Nat.not_succ_le_self c.lastId hle
  · intro u
    rw [hc.tables_grow_next, List.mem_append, List.mem_singleton, or_comm]

theorem Consistent.oneMore_forget (hc : c.Consistent) {name : String}
    (h : c.index.lookup (Name.canonical name) = some t.id) (ht : t ∈ c.tables) :
    OneMore t (c.forget name t.id) c := by
  refine .of_mem_iff (hc.forget h) hc rfl ?_ ?_
  · intro hmem
    exact (mem_tables_forget.mp hmem).2 rfl
  · intro u
    rw [mem_tables_forget]
    constructor
    · intro hu
      by_cases hut : u = t
      · exact .inl hut
      · exact .inr ⟨hu, fun hid => hut (hc.eq_of_id hu ht hid)⟩
    · rintro (rfl | ⟨hu, -⟩)
      · exact ht
      · exact hu

/-! ### Failing -/

section

variable [Snapshot.Format]

theorem flush_error_eq {fs fs' : Files} {e : Error} (h : c.flush fs = (.error e, fs')) :
    ∃ cause, e = .file cause ∧ c.location ≠ none ∧ c.flush fs = (.error (.file cause), fs') := by
  have herror : (c.flush fs).1 = .error e := by rw [h]
  obtain ⟨⟨path, hpath⟩, cause, rfl⟩ := flush_error herror
  exact ⟨cause, rfl, by simp [hpath], h⟩

/-- Registering fails because it is refused or because the catalog cannot be written. -/
theorem Consistent.register_failed (hc : c.Consistent) {fs fs' : Files} {name : String}
    {columns : List Column} {file : Path} {e : Error} {c' : Catalog}
    (h : c.register fs name columns file = (.error e, c', fs')) :
    (c' = c ∧ fs' = fs ∧
      ((columns = [] ∧ e = .noColumns (Name.canonical name)) ∨
        (columns ≠ [] ∧ c.has name = true ∧ e = .tableExists (Name.canonical name)))) ∨
    (columns ≠ [] ∧ c.has name = false ∧ ∃ t cause, t = c.next name columns file ∧
      e = .file cause ∧ c.location ≠ none ∧ c'.flush fs = (.error (.file cause), fs') ∧
      OneMore t c c' ∧ c'.lastId = c.lastId + 1) := by
  rcases register_cases c fs name columns file with
    ⟨hcolumns, hr⟩ | ⟨hcolumns, hhas, hr⟩ | ⟨hcolumns, hnew, t, rfl, hr⟩
  · rw [hr] at h
    cases h
    exact .inl ⟨rfl, rfl, .inl ⟨hcolumns, rfl⟩⟩
  · rw [hr] at h
    cases h
    exact .inl ⟨rfl, rfl, .inr ⟨hcolumns, hhas, rfl⟩⟩
  · right
    rw [hr] at h
    rcases hflush : (c.grow (c.next name columns file)).flush fs with ⟨e' | ⟨⟩, fs''⟩
    · rw [hflush] at h
      cases h
      obtain ⟨cause, rfl, hlocation, hflush⟩ := flush_error_eq hflush
      exact ⟨hcolumns, hnew, _, cause, rfl, rfl, hlocation, hflush,
        hc.oneMore_grow file hcolumns hnew, rfl⟩
    · rw [hflush] at h
      cases h

/-- Dropping fails because the catalog cannot be written or the data file cannot be removed. -/
theorem Consistent.drop_failed (hc : c.Consistent) {fs fs' : Files} {name : String}
    {deleteFile : Bool} {e : Error} {c' : Catalog}
    (h : c.drop fs name deleteFile = (.error e, c', fs')) :
    ∃ t cause, c.find? name = some t ∧ e = .file cause ∧
      ((c.location ≠ none ∧ c'.flush fs = (.error (.file cause), fs')) ∨
        (deleteFile = true ∧ c'.flush fs = (.ok (), fs') ∧
          fs'.remove t.dataFile = .error cause ∧ cause ≠ .notFound)) ∧
      OneMore t c' c ∧ c'.lastId = c.lastId := by
  rcases drop_cases c fs name deleteFile with
    ⟨-, hd⟩ | ⟨id, hid, ⟨e', fs'', hflush, hd⟩ | ⟨fs'', hflush, ⟨-, hd⟩ | ⟨t, hdelete, ht, hd⟩⟩⟩
  · rw [hd] at h
    cases h
  · rw [hd] at h
    cases h
    obtain ⟨-, t, hmem, rfl, htname⟩ := hc.indexed _ _ hid
    have hfind : c.find? name = some t := hc.find?_eq_some_iff.mpr ⟨hmem, htname⟩
    obtain ⟨cause, rfl, hlocation, hflush⟩ := flush_error_eq hflush
    exact ⟨t, cause, hfind, rfl, .inl ⟨hlocation, hflush⟩, hc.oneMore_forget hid hmem, rfl⟩
  · rw [hd] at h
    cases h
  · rw [hd] at h
    have hfind : c.find? name = some t := by
      rw [find?, hid]
      exact ht
    obtain ⟨hmem, rfl⟩ := hc.byId?_eq_some_iff.mp ht
    rcases discard_cases fs'' t with
      ⟨fs₂, -, hdiscard⟩ | ⟨-, hdiscard⟩ | ⟨cause, hcause, hremove, hdiscard⟩
    · rw [hdiscard] at h
      cases h
    · rw [hdiscard] at h
      cases h
    · rw [hdiscard] at h
      cases h
      exact ⟨t, cause, hfind, rfl, .inr ⟨hdelete, hflush, hremove, hcause⟩,
        hc.oneMore_forget hid hmem, rfl⟩

/-- **What a failure means.**  Registering fails because it is refused, and then nothing has changed;
or because the catalog cannot be written, and then the table is known all the same.  Dropping fails
because the catalog cannot be written or the data file cannot be removed, and then the table is
forgotten all the same. -/
theorem Reachable.failed_cases [Snapshot.LawfulFormat] (hc : Reachable c) (fs : Files) :
    (∀ name columns file e c' fs', c.register fs name columns file = (.error e, c', fs') →
      (c' = c ∧ fs' = fs ∧
        ((columns = [] ∧ e = .noColumns (Name.canonical name)) ∨
          (columns ≠ [] ∧ c.has name = true ∧ e = .tableExists (Name.canonical name)))) ∨
      (columns ≠ [] ∧ c.has name = false ∧ ∃ t cause, t = c.next name columns file ∧
        e = .file cause ∧ c.location ≠ none ∧ c'.flush fs = (.error (.file cause), fs') ∧
        OneMore t c c' ∧ c'.lastId = c.lastId + 1)) ∧
    (∀ name deleteFile e c' fs', c.drop fs name deleteFile = (.error e, c', fs') →
      ∃ t cause, c.find? name = some t ∧ e = .file cause ∧
        ((c.location ≠ none ∧ c'.flush fs = (.error (.file cause), fs')) ∨
          (deleteFile = true ∧ c'.flush fs = (.ok (), fs') ∧
            fs'.remove t.dataFile = .error cause ∧ cause ≠ .notFound)) ∧
        OneMore t c' c ∧ c'.lastId = c.lastId) := by
  constructor
  · intro name columns file e c' fs' h
    exact hc.consistent.register_failed h
  · intro name deleteFile e c' fs' h
    exact hc.consistent.drop_failed h

end

/-! ### In a directory where the catalog cannot be written -/

/-- A directory called `db` in which another directory has the name of the draft of a catalog. -/
def blockedDirectory : Files :=
  { entries := [(["db"], .directory), (["db", "catalog.json.tmp"], .directory)] }

/-- Registering a table fails there, but the table is known from then on. -/
theorem not_failed_unchanged :
    ¬ ∀ c : Catalog, Reachable c → ∀ (fs : Files) (op : Operation),
      (c.perform fs op).1.succeeded = false →
        (∀ name, (c.perform fs op).2.1.get name = c.get name) ∧
        (∀ id, (c.perform fs op).2.1.byId? id = c.byId? id) ∧
        (∀ name, (c.perform fs op).2.1.has name = c.has name) ∧
        (c.perform fs op).2.1.list = c.list ∧ (c.perform fs op).2.1.lastId = c.lastId := by
  intro hclaim
  have hfailed : (firstOpened.perform blockedDirectory
      (.register "t" [.named "a"] ⟨"db/t.csv"⟩)).1.succeeded = false := by
    decide +kernel
  obtain ⟨-, -, hhas, -⟩ := hclaim firstOpened reachable_firstOpened blockedDirectory _ hfailed
  have hbefore : firstOpened.has "t" = false := by decide +kernel
  have hafter : (firstOpened.perform blockedDirectory
      (.register "t" [.named "a"] ⟨"db/t.csv"⟩)).2.1.has "t" = true := by
    decide +kernel
  rw [hhas "t", hbefore] at hafter
  cases hafter

/-- What is left of the failure is one table more. -/
theorem failed_cases_sample :
    (firstOpened.register blockedDirectory "T" [.named "a"] ⟨"db/t.csv"⟩).1 =
        .error (.file .isADirectory) ∧
      OneMore (.named 1 "t" [.named "a"] ⟨"db/t.csv"⟩) firstOpened
        (firstOpened.register blockedDirectory "T" [.named "a"] ⟨"db/t.csv"⟩).2.1 := by
  have herror : (firstOpened.register blockedDirectory "T" [.named "a"] ⟨"db/t.csv"⟩).1 =
      .error (.file .isADirectory) := by
    decide +kernel
  have hnext : firstOpened.next "T" [.named "a"] ⟨"db/t.csv"⟩ =
      .named 1 "t" [.named "a"] ⟨"db/t.csv"⟩ := by
    decide +kernel
  refine ⟨herror, ?_⟩
  rcases (reachable_firstOpened.failed_cases blockedDirectory).1 "T" [.named "a"] ⟨"db/t.csv"⟩ _ _ _
    (Prod.ext herror rfl) with ⟨-, -, ⟨hcolumns, -⟩ | ⟨-, hhas, -⟩⟩ | ⟨-, -, t, cause, ht, -, -, -, h, -⟩
  · cases hcolumns
  · have hnone : firstOpened.has "T" = false := by decide +kernel
    rw [hnone] at hhas
    cases hhas
  · rw [ht, hnext] at h
    exact h

end FlatQuery.Catalog
