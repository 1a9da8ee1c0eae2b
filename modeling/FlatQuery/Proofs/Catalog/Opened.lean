import FlatQuery.Proofs.Catalog.Run

/-!
# Catalogs opened from any document

Opening takes over whatever a readable document says: entries are added one after the other, and a
later entry of the same number or of the same name takes the place of an earlier one
(`byId?_foldl_add`, `lookup_foldl_add`).  So the catalog is in order (`Orderly`) exactly if the
document does not contradict itself (`Snapshot.Coherent`), and only the numbers matter for what
registering does to the tables that were loaded (`Keeps.after`).  Both are put together in
`opened_in_order`.
-/

namespace FlatQuery

/-- The entries of a stored catalog do not contradict each other. -/
structure Snapshot.Coherent (s : Snapshot) : Prop where
  /-- No number is above the last one given out. -/
  numbered : ∀ t ∈ s.tables, t.id ≤ s.lastId
  /-- If the name of an entry occurs again later, its number does too. -/
  renamed : ∀ before t after, s.tables = before ++ t :: after →
    (∃ u ∈ after, Name.canonical u.name = Name.canonical t.name) → ∃ u ∈ after, u.id = t.id

namespace Catalog

variable {c d : Catalog}

/-! ### Adding a table of any name and number -/

theorem find?_insertTable (t : Table) (id : Nat) (tables : List Table) :
    (insertTable t tables).find? (·.id == id) =
      if t.id = id then some t else tables.find? (·.id == id) := by
  have hcons : ∀ (u : Table) (rest : List Table), (u :: rest).find? (·.id == id) =
      if u.id = id then some u else rest.find? (·.id == id) := by
    intro u rest
    by_cases hu : u.id = id
    · rw [List.find?_cons_of_pos (by simpa using hu), if_pos hu]
    · rw [List.find?_cons_of_neg (by simpa using hu), if_neg hu]
  induction tables with
  | nil => exact hcons t []
  | cons u rest ih =>
    rw [insertTable]
    split
    · exact hcons t (u :: rest)
    · split
      next hid =>
        rw [hcons, hcons, ← hid]
        split
        · rfl
        · rfl
      next hid =>
        rw [hcons, ih, hcons]
        by_cases hu : u.id = id
        · rw [if_pos hu, if_pos hu, if_neg (hu ▸ hid)]
        · rw [if_neg hu, if_neg hu]

theorem byId?_add (c : Catalog) (t : Table) (id : Nat) :
    (c.add t).byId? id = if t.id = id then some t else c.byId? id :=
  find?_insertTable t id c.tables

theorem lookup_add (c : Catalog) (t : Table) (name : String) :
    (c.add t).index.lookup name =
      if Name.canonical t.name = name then some t.id else c.index.lookup name := by
  change (setIndex (Name.canonical t.name) t.id c.index).lookup name = _
  split
  next h => rw [h, lookup_setIndex_self]
  next h => rw [lookup_setIndex_of_ne (Ne.symm h)]

theorem insertTable_increasing {tables : List Table} (h : tables.Pairwise (·.id < ·.id))
    (t : Table) : (insertTable t tables).Pairwise (·.id < ·.id) := by
  induction tables with
  | nil => exact List.pairwise_singleton ..
  | cons u rest ih =>
    obtain ⟨hu, hrest⟩ := List.pairwise_cons.mp h
    rw [insertTable]
    split
    next hlt =>
      refine List.pairwise_cons.mpr ⟨fun v hv => ?_, h⟩
      rcases List.mem_cons.mp hv with rfl | hv
      · exact hlt
      · exact Nat.lt_trans hlt (hu v hv)
    next hlt =>
      split
      next hid => exact List.pairwise_cons.mpr ⟨fun v hv => hid ▸ hu v hv, hrest⟩
      next hid =>
        refine List.pairwise_cons.mpr ⟨fun v hv => ?_, ih hrest⟩
        rcases eq_or_mem_of_mem_insertTable hv with rfl | hv
        · omega
        · exact hu v hv

/-! ### Adding the entries of a document -/

theorem byId?_foldl_add (entries : List Table) (c : Catalog) (id : Nat) :
    (entries.foldl add c).byId? id = (entries.reverse.find? (·.id == id)).or (c.byId? id) := by
  induction entries generalizing c with
  | nil => rfl
  | cons t rest ih =>
    rw [List.foldl_cons, ih, byId?_add, List.reverse_cons, List.find?_append, Option.or_assoc]
    refine congrArg _ ?_
    by_cases ht : t.id = id
    · simp [ht]
    · rw [if_neg ht, List.find?_cons_of_neg (by simpa using ht), List.find?_nil, Option.none_or]

theorem lookup_foldl_add (entries : List Table) (c : Catalog) (name : String) :
    (entries.foldl add c).index.lookup name =
      ((entries.reverse.find? (Name.canonical ·.name == name)).map (·.id)).or
        (c.index.lookup name) := by
  induction entries generalizing c with
  | nil => rfl
  | cons t rest ih =>
    rw [List.foldl_cons, ih, lookup_add, List.reverse_cons, List.find?_append, Option.map_or,
      Option.or_assoc]
    refine congrArg _ ?_
    by_cases ht : Name.canonical t.name = name
    · simp [ht]
    · rw [if_neg ht, List.find?_cons_of_neg (by simpa using ht), List.find?_nil, Option.map_none,
        Option.none_or]

theorem foldl_add_increasing (entries : List Table) (h : c.tables.Pairwise (·.id < ·.id)) :
    (entries.foldl add c).tables.Pairwise (·.id < ·.id) := by
  induction entries generalizing c with
  | nil => exact h
  | cons t rest ih => exact ih (insertTable_increasing h t)

theorem lastId_foldl_add (entries : List Table) (c : Catalog) :
    (entries.foldl add c).lastId = c.lastId := by
  induction entries generalizing c with
  | nil => rfl
  | cons t rest ih => exact ih (c.add t)

/-- The last entry for which a test holds, by what stands before and after it. -/
theorem find?_reverse_eq_some_iff {p : Table → Bool} {entries : List Table} {t : Table} :
    entries.reverse.find? p = some t ↔
      p t = true ∧ ∃ before after, entries = before ++ t :: after ∧ ∀ u ∈ after, p u = false := by
  rw [List.find?_eq_some_iff_append]
  refine and_congr_right fun _ => ?_
  constructor
  · rintro ⟨later, earlier, h, hlater⟩
    refine ⟨earlier.reverse, later.reverse, ?_, fun u hu => ?_⟩
    · rw [← List.reverse_reverse entries, h]
      simp
    · simpa using hlater u (List.mem_reverse.mp hu)
  · rintro ⟨before, after, h, hafter⟩
    refine ⟨after.reverse, before.reverse, ?_, fun u hu => ?_⟩
    · rw [h]
      simp
    · simpa using hafter u (List.mem_reverse.mp hu)

section

variable (path : Path) (s : Snapshot)

theorem ofSnapshot_increasing : (ofSnapshot path s).tables.Pairwise (·.id < ·.id) :=
  foldl_add_increasing s.tables .nil

@[simp] theorem lastId_ofSnapshot : (ofSnapshot path s).lastId = s.lastId :=
  lastId_foldl_add s.tables _

theorem byId?_ofSnapshot (id : Nat) :
    (ofSnapshot path s).byId? id = s.tables.reverse.find? (·.id == id) := by
  rw [ofSnapshot, byId?_foldl_add]
  exact Option.or_none

theorem lookup_ofSnapshot (name : String) :
    (ofSnapshot path s).index.lookup name =
      (s.tables.reverse.find? (Name.canonical ·.name == name)).map (·.id) := by
  rw [ofSnapshot, lookup_foldl_add]
  exact Option.or_none

end

variable {path : Path} {s : Snapshot}

theorem mem_ofSnapshot {t : Table} :
    t ∈ (ofSnapshot path s).tables ↔
      ∃ before after, s.tables = before ++ t :: after ∧ ∀ u ∈ after, u.id ≠ t.id := by
  have hmem : t ∈ (ofSnapshot path s).tables ↔ (ofSnapshot path s).byId? t.id = some t := by
    rw [byId?_eq_some_iff_of_increasing (ofSnapshot_increasing path s)]
    simp
  rw [hmem, byId?_ofSnapshot, find?_reverse_eq_some_iff]
  simp

theorem exists_mem_ofSnapshot {t : Table} (h : t ∈ s.tables) :
    ∃ u ∈ (ofSnapshot path s).tables, u.id = t.id := by
  have hsome : (s.tables.reverse.find? (·.id == t.id)).isSome = true := by
    rw [List.find?_isSome]
    exact ⟨t, List.mem_reverse.mpr h, by simp⟩
  obtain ⟨u, hu⟩ := Option.isSome_iff_exists.mp hsome
  have hbyId : (ofSnapshot path s).byId? t.id = some u := by
    rw [byId?_ofSnapshot, hu]
  exact ⟨u, (byId?_eq_some_iff_of_increasing (ofSnapshot_increasing path s)).mp hbyId⟩

/-! ### Catalogs in order -/

/-- Names and numbers tell the tables apart, and every table is found under its own name. -/
structure Orderly (c : Catalog) : Prop where
  names : c.list.Pairwise fun t u => Name.canonical t.name ≠ Name.canonical u.name
  ids : c.list.Pairwise (·.id ≠ ·.id)
  found : ∀ t ∈ c.list, c.get t.name = .ok t
  /-- No number is above the last one given out. -/
  numbered : ∀ t ∈ c.list, t.id ≤ c.lastId

theorem get_eq_ok_iff {name : String} {t : Table} :
    c.get name = .ok t ↔
      ∃ id, c.index.lookup (Name.canonical name) = some id ∧ c.byId? id = some t := by
  rw [← Option.bind_eq_some_iff]
  change c.get name = .ok t ↔ c.find? name = some t
  rw [get]
  cases c.find? name with
  | none => simp
  | some u => simp

theorem list_ids (h : c.tables.Pairwise (·.id < ·.id)) : c.list.Pairwise (·.id ≠ ·.id) := by
  have hids : c.tables.Pairwise (·.id ≠ ·.id) := h.imp Nat.ne_of_lt
  exact (List.Perm.pairwise_iff Ne.symm (List.mergeSort_perm _ _)).mpr hids

theorem names_of_found (h : c.tables.Pairwise (·.id < ·.id))
    (hfound : ∀ t ∈ c.list, c.get t.name = .ok t) :
    c.list.Pairwise fun t u => Name.canonical t.name ≠ Name.canonical u.name := by
  refine (list_ids h).imp_of_mem fun {t u} ht hu hid hname => ?_
  obtain ⟨id, hlookup, hbyId⟩ := get_eq_ok_iff.mp (hfound t ht)
  obtain ⟨id', hlookup', hbyId'⟩ := get_eq_ok_iff.mp (hfound u hu)
  obtain rfl : id = id' := by
    rw [hname, hlookup'] at hlookup
    exact (Option.some.inj hlookup).symm
  rw [hbyId] at hbyId'
  exact hid (congrArg Table.id (Option.some.inj hbyId'))

/-- A table of an opened catalog is found under its own name exactly if no later entry has taken
the name over. -/
theorem get_ofSnapshot {before after : List Table} {t : Table}
    (h : s.tables = before ++ t :: after) (hlast : ∀ u ∈ after, u.id ≠ t.id) :
    (ofSnapshot path s).get t.name = .ok t ↔
      ∀ u ∈ after, Name.canonical u.name ≠ Name.canonical t.name := by
  have ht : t ∈ (ofSnapshot path s).tables := mem_ofSnapshot.mpr ⟨before, after, h, hlast⟩
  have hlookup : (ofSnapshot path s).index.lookup (Name.canonical t.name) =
      ((after.reverse.find? (Name.canonical ·.name == Name.canonical t.name)).or (some t)).map
        (·.id) := by
    rw [lookup_ofSnapshot, h, List.reverse_append, List.reverse_cons, List.append_assoc,
      List.singleton_append, List.find?_append, List.find?_cons_of_pos (by simp)]
  simp only [get_eq_ok_iff, byId?_eq_some_iff_of_increasing (ofSnapshot_increasing path s), hlookup]
  constructor
  · rintro ⟨id, hid, -, rfl⟩ u hu hname
    cases hfind : after.reverse.find? (Name.canonical ·.name == Name.canonical t.name) with
    | none =>
      have hnone := List.find?_eq_none.mp hfind u (List.mem_reverse.mpr hu)
      simp [hname] at hnone
    | some v =>
      rw [hfind] at hid
      exact hlast v (List.mem_reverse.mp (List.mem_of_find?_eq_some hfind)) (Option.some.inj hid)
  · intro hnames
    have hnone : after.reverse.find? (Name.canonical ·.name == Name.canonical t.name) = none := by
      refine List.find?_eq_none.mpr fun u hu => ?_
      simpa using hnames u (List.mem_reverse.mp hu)
    exact ⟨t.id, by rw [hnone]; rfl, ht, rfl⟩

/-- An opened catalog is in order exactly if the document does not contradict itself. -/
theorem orderly_ofSnapshot : (ofSnapshot path s).Orderly ↔ s.Coherent := by
  have hincreasing := ofSnapshot_increasing path s
  constructor
  · intro ho
    constructor
    case numbered =>
      intro t ht
      obtain ⟨u, hu, hid⟩ : ∃ u ∈ (ofSnapshot path s).tables, u.id = t.id :=
        exists_mem_ofSnapshot ht
      have hle := ho.numbered u (Consistent.mem_list.mpr hu)
      rwa [lastId_ofSnapshot, hid] at hle
    case renamed =>
      rintro before t after h ⟨u, hu, hname⟩
      by_contra hnot
      have hlast : ∀ v ∈ after, v.id ≠ t.id := fun v hv hid => hnot ⟨v, hv, hid⟩
      have ht : t ∈ (ofSnapshot path s).list :=
        Consistent.mem_list.mpr (mem_ofSnapshot.mpr ⟨before, after, h, hlast⟩)
      exact (get_ofSnapshot h hlast).mp (ho.found t ht) u hu hname
  · intro hs
    have hfound : ∀ t ∈ (ofSnapshot path s).list, (ofSnapshot path s).get t.name = .ok t := by
      intro t ht
      obtain ⟨before, after, h, hlast⟩ := mem_ofSnapshot.mp (Consistent.mem_list.mp ht)
      refine (get_ofSnapshot h hlast).mpr fun u hu hname => ?_
      obtain ⟨v, hv, hid⟩ := hs.renamed before t after h ⟨u, hu, hname⟩
      exact hlast v hv hid
    refine ⟨names_of_found hincreasing hfound, list_ids hincreasing, hfound, ?_⟩
    intro t ht
    obtain ⟨before, after, h, -⟩ := mem_ofSnapshot.mp (Consistent.mem_list.mp ht)
    rw [lastId_ofSnapshot]
    refine hs.numbered t ?_
    rw [h]
    exact List.mem_append_right _ (List.mem_cons_self ..)

/-! ### Registering on an opened catalog -/

/-- What one catalog knows, the other knows too, and what it knows besides has a new number. -/
structure Keeps (c d : Catalog) : Prop where
  listed : ∀ t ∈ c.list, t ∈ d.list
  named : ∀ name t, c.get name = .ok t → d.get name = .ok t
  numbered : ∀ id t, c.byId? id = some t → d.byId? id = some t
  added : ∀ t ∈ d.list, t ∈ c.list ∨ c.lastId < t.id

theorem Keeps.refl (c : Catalog) : Keeps c c :=
  ⟨fun _ => id, fun _ _ => id, fun _ _ => id, fun _ => .inl⟩

theorem Keeps.trans {e : Catalog} (h : Keeps c d) (h' : Keeps d e) (hle : c.lastId ≤ d.lastId) :
    Keeps c e := by
  refine ⟨fun t ht => h'.listed t (h.listed t ht), fun name t ht => h'.named name t (h.named name t ht),
    fun id t ht => h'.numbered id t (h.numbered id t ht), fun t ht => ?_⟩
  rcases h'.added t ht with ht | hlt
  · exact h.added t ht
  · exact .inr (Nat.lt_of_le_of_lt hle hlt)

/-- No number of a table is above the last one given out. -/
def InRange (c : Catalog) : Prop :=
  ∀ t ∈ c.tables, t.id ≤ c.lastId

/-- Registering keeps what is known, if all numbers are in range, and leaves them so. -/
theorem InRange.register [Snapshot.Format] (hc : c.InRange) (fs : Files) (name : String)
    (columns : List Column) (file : Path) :
    (c.register fs name columns file).2.1.InRange ∧
      Keeps c (c.register fs name columns file).2.1 := by
  rcases register_cases c fs name columns file with ⟨-, h⟩ | ⟨-, -, h⟩ | ⟨-, hnew, t, rfl, h⟩
  · rw [h]
    exact ⟨hc, .refl c⟩
  · rw [h]
    exact ⟨hc, .refl c⟩
  rw [h]
  have htables : (c.grow (c.next name columns file)).tables =
      c.tables ++ [c.next name columns file] :=
    insertTable_of_forall_lt fun u hu => Nat.lt_succ_of_le (hc u hu)
  have hbyId : ∀ id t, c.byId? id = some t →
      (c.grow (c.next name columns file)).byId? id = some t := by
    intro id t ht
    have hid : t.id = id := by simpa using List.find?_some ht
    have hle : t.id ≤ c.lastId := hc t (List.mem_of_find?_eq_some ht)
    have hne : (c.next name columns file).id ≠ id := by
      change c.lastId + 1 ≠ id
      omega
    exact (byId?_add c _ id).trans ((if_neg hne).trans ht)
  refine ⟨?_, ?_, ?_, hbyId, ?_⟩
  · intro u hu
    rw [htables, List.mem_append, List.mem_singleton] at hu
    rcases hu with hu | rfl
    · exact Nat.le_succ_of_le (hc u hu)
    · exact Nat.le_refl _
  · intro u hu
    rw [Consistent.mem_list] at hu ⊢
    rw [htables]
    exact List.mem_append_left _ hu
  · intro other u hu
    obtain ⟨id, hlookup, hu⟩ := get_eq_ok_iff.mp hu
    refine get_eq_ok_iff.mpr ⟨id, ?_, hbyId id u hu⟩
    -- the new name means nothing yet, so it is not the one that was looked up
    have hne : Name.canonical (c.next name columns file).name ≠ Name.canonical other := by
      intro heq
      have hcanonical : Name.canonical (c.next name columns file).name = Name.canonical name :=
        Name.canonical_canonical name
      rw [has, ← hcanonical, heq, hlookup] at hnew
      cases hnew
    exact (lookup_add c _ _).trans ((if_neg hne).trans hlookup)
  · intro u hu
    rw [Consistent.mem_list, htables, List.mem_append, List.mem_singleton] at hu
    rcases hu with hu | rfl
    · exact .inl (Consistent.mem_list.mpr hu)
    · exact .inr (Nat.lt_succ_self c.lastId)

def OnlyRegisters (ops : List (Files × Operation)) : Prop :=
  ∀ op ∈ ops, ∃ name columns file, op.2 = .register name columns file

theorem InRange.keeps_after [Snapshot.Format] (hc : c.InRange) {ops : List (Files × Operation)}
    (hops : OnlyRegisters ops) : Keeps c (c.after ops) := by
  induction ops generalizing c with
  | nil => exact .refl c
  | cons op rest ih =>
    obtain ⟨fs, op⟩ := op
    obtain ⟨⟨name, columns, file, rfl⟩, hrest⟩ := List.forall_mem_cons.mp hops
    obtain ⟨hrange, hkeeps⟩ := hc.register fs name columns file
    exact hkeeps.trans (ih hrange hrest) (lastId_le_perform c fs (.register name columns file))

/-! ### Opening -/

/-- The document that a directory keeps its catalog in, where there is one. -/
inductive Document [Snapshot.Format] (fs : Files) (root : Path) : Snapshot → Prop
  | absent (savedAt : String) : fs.isThere (root.join Snapshot.fileName) = false →
    Document fs root { lastId := 0, savedAt, tables := [] }
  | stored {s : Snapshot} : fs.isThere (root.join Snapshot.fileName) = true →
    Snapshot.read fs (root.join Snapshot.fileName) = .ok s → Document fs root s

theorem exists_document [Snapshot.Format] {fs : Files} {root : Path} (h : openIn fs root = .ok c) :
    ∃ s, Document fs root s ∧ c = ofSnapshot (root.join Snapshot.fileName) s := by
  cases hthere : fs.isThere (root.join Snapshot.fileName) with
  | false =>
    rw [openIn_of_absent hthere] at h
    exact ⟨_, .absent "" hthere, (Except.ok.inj h).symm⟩
  | true =>
    simp only [openIn, hthere, if_true] at h
    obtain ⟨s, hs, hc⟩ := Outcome.bind_eq_ok_iff.mp h
    exact ⟨s, .stored hthere hs, (Except.ok.inj hc).symm⟩

/-- **Opening trusts the document.**  A catalog that is opened goes on with the last number of the
document and lists, by different numbers, the entries whose number does not occur again.  It is in
order exactly if the document does not contradict itself; and if only the numbers of the document are
in range, no run that registers tables replaces or hides one that was loaded. -/
theorem opened_in_order [Snapshot.Format] {fs : Files} {root : Path}
    (h : openIn fs root = .ok c) :
    ∃ s, Document fs root s ∧ c.lastId = s.lastId ∧ c.list.Pairwise (·.id ≠ ·.id) ∧
      (∀ t, t ∈ c.list ↔
        ∃ before after, s.tables = before ++ t :: after ∧ ∀ u ∈ after, u.id ≠ t.id) ∧
      (c.Orderly ↔ s.Coherent) ∧
      ((∀ t ∈ s.tables, t.id ≤ s.lastId) →
        ∀ ops, OnlyRegisters ops → Keeps c (c.after ops)) := by
  obtain ⟨s, hs, rfl⟩ := exists_document h
  refine ⟨s, hs, lastId_ofSnapshot _ s, list_ids (ofSnapshot_increasing _ s), fun t => ?_,
    orderly_ofSnapshot, fun hnumbered ops hops => ?_⟩
  · rw [Consistent.mem_list, mem_ofSnapshot]
  · have hrange : (ofSnapshot (root.join Snapshot.fileName) s).InRange := by
      intro t ht
      obtain ⟨before, after, htables, -⟩ := mem_ofSnapshot.mp ht
      rw [lastId_ofSnapshot]
      refine hnumbered t ?_
      rw [htables]
      exact List.mem_append_right _ (List.mem_cons_self ..)
    exact hrange.keeps_after hops

/-! ### A document in a directory -/

/-- A directory called `db` with a document in it. -/
def directoryOf (s : Snapshot) : Files :=
  { entries := [(["db"], .directory), (["db", "catalog.json"], .file 0)]
    contents := [.text (Snapshot.Format.text s)] }

theorem openIn_directoryOf (hs : s.Readable) :
    openIn (directoryOf s) ⟨"db"⟩ = .ok (ofSnapshot ⟨"db/catalog.json"⟩ s) := by
  let c : Catalog := { tables := s.tables, lastId := s.lastId }
  have hread : (directoryOf s).read ((⟨"db"⟩ : Path).join Snapshot.fileName) =
      .ok (.text (Snapshot.Format.text (c.snapshot s.savedAt))) := rfl
  exact (openIn_of_read hread).mpr ⟨hs, rfl⟩

/-- A document whose last number lags behind is opened all the same, and the catalog holds a table
with a number that is yet to be given out. -/
theorem not_opened_in_order :
    ¬ ∀ (fs : Files) (root : Path) (c : Catalog), openIn fs root = .ok c →
      c.Orderly ∧ ∀ ops, OnlyRegisters ops → Keeps c (c.after ops) := by
  intro hclaim
  let t : Table := .named 1 "a" [.named "x"] ⟨"db/a.csv"⟩
  let s : Snapshot := { lastId := 0, savedAt := "2024-05-01T10:00:00Z", tables := [t] }
  have hs : s.Readable := ⟨by decide +kernel, by decide, by decide +kernel⟩
  have horderly := (hclaim _ _ _ (openIn_directoryOf hs)).1
  have hle := (orderly_ofSnapshot.mp horderly).numbered t (List.mem_singleton.mpr rfl)
  exact absurd hle (by decide)

/-- A document with two spellings of one name is opened: both tables are listed, one is hidden, and
registering leaves both where they are. -/
theorem opened_in_order_sample :
    let s : Snapshot :=
      { lastId := 2, savedAt := "2024-05-01T10:00:00Z"
        tables := [⟨1, "a", [.named "x"], ⟨"db/a.csv"⟩⟩, ⟨2, "A", [.named "x"], ⟨"db/a.csv"⟩⟩] }
    let c := ofSnapshot ⟨"db/catalog.json"⟩ s
    openIn (directoryOf s) ⟨"db"⟩ = .ok c ∧ ¬ c.Orderly ∧
      ∃ s', Document (directoryOf s) ⟨"db"⟩ s' ∧ c.lastId = s'.lastId ∧ (c.Orderly ↔ s'.Coherent) := by
  intro s c
  have hs : s.Readable := ⟨by decide +kernel, by decide, by decide +kernel⟩
  have hopen : openIn (directoryOf s) ⟨"db"⟩ = .ok c := openIn_directoryOf hs
  have hnot : ¬ c.Orderly := by
    intro ho
    have hfound := ho.found ⟨1, "a", [.named "x"], ⟨"db/a.csv"⟩⟩
      (Consistent.mem_list.mpr (by decide +kernel))
    exact absurd hfound (by decide +kernel)
  obtain ⟨s', hs', hlast, -, -, horderly, -⟩ := opened_in_order hopen
  exact ⟨hopen, hnot, s', hs', hlast, horderly⟩

end Catalog

end FlatQuery
