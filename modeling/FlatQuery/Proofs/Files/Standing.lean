import FlatQuery.Proofs.Files.Grown

/-!
# What stands at each place

A file that stands at a place is told by its number and by what it holds (`standing?`).  A path has a
place even before the directories above it are made (`goal`), and making them changes no more than the
places on the way to it (`Made.asBefore`).  Writing a file changes what stands at its own place, and
where the file has a second name (`standing?_of_write`), and moving one what stands at both of its
places (`standing?_of_rename`).
-/

namespace FlatQuery.Files

variable {fs fs' fs'' : Files} {place start : Place} {p q : Path} {c : Content}

/-! ### Standing -/

/-- What stands at a place: a directory, or a file with what it holds. -/
inductive Standing where
  | directory
  | file (id : Nat) (content : Content)
  deriving DecidableEq, Repr

/-- What stands at a place, if anything does. -/
def standing? (fs : Files) (place : Place) : Option Standing :=
  match fs.node? place with
  | none => none
  | some .directory => some .directory
  | some (.file id) => some (.file id (fs.content id))

theorem standing?_eq_none_iff : fs.standing? place = none ↔ fs.node? place = none := by
  rw [standing?]
  cases fs.node? place with
  | none => simp
  | some node => cases node <;> simp

theorem standing?_eq_directory_iff :
    fs.standing? place = some .directory ↔ fs.node? place = some .directory := by
  rw [standing?]
  cases fs.node? place with
  | none => simp
  | some node => cases node <;> simp

theorem standing?_eq_file_iff {id : Nat} : fs.standing? place = some (.file id c) ↔
    fs.node? place = some (.file id) ∧ fs.content id = c := by
  rw [standing?]
  cases fs.node? place with
  | none => simp
  | some node =>
    cases node with
    | directory => simp
    | file other =>
      simp only [Option.some.injEq, Standing.file.injEq, Node.file.injEq]
      exact and_congr_right fun h => h ▸ Iff.rfl

theorem standing?_of_directory (h : fs.node? place = some .directory) :
    fs.standing? place = some .directory := by
  rw [standing?, h]

theorem standing?_of_file {id : Nat} (h : fs.node? place = some (.file id)) :
    fs.standing? place = some (.file id (fs.content id)) := by
  rw [standing?, h]

/-- The same stands where the same node is, if the file there holds the same. -/
theorem standing?_congr (hnode : fs'.node? place = fs.node? place)
    (hcontent : ∀ id, fs.node? place = some (.file id) → fs'.content id = fs.content id) :
    fs'.standing? place = fs.standing? place := by
  rw [standing?, hnode, standing?]
  cases h : fs.node? place with
  | none => rfl
  | some node =>
    cases node with
    | directory => rfl
    | file id => simp only [hcontent id h]

/-! ### The place of a path -/

/-- The place that a path names, if all that it leads through are directories. -/
def goal (fs : Files) (p : Path) : Place :=
  p.walk.foldl turn (fs.start p)

theorem eq_foldl_of_follow {steps : List String} (h : fs.follow start steps = .ok place) :
    place = steps.foldl turn start := by
  induction steps generalizing start with
  | nil => exact (Except.ok.inj h).symm
  | cons step rest ih => exact ih (follow_cons_eq_ok_iff.mp h).2

theorem eq_goal_of_place (h : fs.place p = .ok place) : place = fs.goal p :=
  eq_foldl_of_follow (place_eq_ok_iff.mp h).2

theorem start_congr (h : fs'.current = fs.current) (p : Path) : fs'.start p = fs.start p := by
  rw [start, start, h]

theorem goal_congr (h : fs'.current = fs.current) (p : Path) : fs'.goal p = fs.goal p := by
  rw [goal, goal, start_congr h]

theorem goal_extend_ne {suffix : String} (h : Path.IsName suffix) (fs : Files) (p : Path) :
    fs.goal (p.extend suffix) ≠ fs.goal p := by
  obtain ⟨habsolute, hwalk⟩ := Path.walk_extend h p
  have hstart : fs.start (p.extend suffix) = fs.start p := by
    rw [start, start, habsolute]
  rw [goal, goal, hstart]
  rcases hwalk with ⟨front, last, hwalk, hdot, hdots, hname, hextend⟩ | hextend
  · rw [hwalk, hextend, List.foldl_append, List.foldl_append, List.foldl_cons, List.foldl_nil,
      List.foldl_cons, List.foldl_nil, turn_name hname, turn, if_neg hdot, if_neg hdots]
    intro heq
    have hlast : last ++ suffix = last := (List.cons.inj (List.append_cancel_left heq)).1
    have hlength := congrArg String.length hlast
    rw [String.length_append] at hlength
    have hpos : suffix.length ≠ 0 := by simpa using h.ne_empty
    omega
  · rw [hextend, List.foldl_append, List.foldl_cons, List.foldl_nil, turn_name h]
    intro heq
    have hlength := congrArg List.length heq
    rw [List.length_append, List.length_singleton] at hlength
    omega

/-! ### Making directories -/

/-- The steps before the last one of a path lead through a place. -/
def OnTheWay (fs : Files) (p : Path) (place : Place) : Prop :=
  ∃ front, front <+: p.walk.dropLast ∧ place = front.foldl turn (fs.start p)

/-- At a place stands what stood there; or else nothing did, on the way to a path, and a directory does
now. -/
def AsBefore (fs fs' : Files) (p : Path) (place : Place) : Prop :=
  fs'.standing? place = fs.standing? place ∨
    fs.standing? place = none ∧ fs'.standing? place = some .directory ∧ fs.OnTheWay p place

theorem AsBefore.of_eq (h : AsBefore fs fs' p place)
    (heq : fs''.standing? place = fs'.standing? place) : AsBefore fs fs'' p place := by
  rcases h with hsame | ⟨hnone, hmade, hway⟩
  · exact .inl (heq.trans hsame)
  · exact .inr ⟨hnone, heq.trans hmade, hway⟩

theorem Made.asBefore {steps : List String} (h : Made fs fs' (fs.start p) steps)
    (hsteps : steps <+: p.walk.dropLast) (place : Place) : AsBefore fs fs' p place := by
  rcases h.node place with hnode | ⟨hfree, hmade, front, hfront, hplace⟩
  · left
    refine standing?_congr hnode fun id _ => ?_
    rw [content, h.contents, content]
  · right
    exact ⟨standing?_eq_none_iff.mpr hfree, standing?_of_directory hmade, front,
      hfront.trans hsteps, hplace⟩

/-- Two places are one, or the same file stands at both. -/
def SameFile (fs : Files) (place other : Place) : Prop :=
  place = other ∨ ∃ id, fs.node? place = some (.file id) ∧ fs.node? other = some (.file id)

/-- A file at the place has no other name. -/
def Sole (fs : Files) (place : Place) : Prop :=
  ∀ id other, fs.node? place = some (.file id) → fs.node? other = some (.file id) → other = place

theorem Sole.eq_of_sameFile {other : Place} (hsole : fs.Sole place) (h : fs.SameFile other place) :
    other = place := by
  rcases h with rfl | ⟨id, hother, hplace⟩
  · rfl
  · exact hsole id other hplace hother

theorem sole_of_all {id : Nat} (hnode : fs.node? place = some (.file id))
    (h : (fs.entries.all fun entry => entry.2 != .file id || entry.1 == place) = true) :
    fs.Sole place := by
  intro other elsewhere hother helsewhere
  rw [hnode] at hother
  cases hother
  have hnil : elsewhere ≠ [] := by
    rintro rfl
    cases helsewhere
  rw [node?_of_ne_nil hnil] at helsewhere
  obtain ⟨earlier, later, hentries, -⟩ := List.lookup_eq_some_iff.mp helsewhere
  have hentry := List.all_eq_true.mp h (elsewhere, .file id) (by simp [hentries])
  simpa using hentry

theorem Made.file {steps : List String} {id : Nat} (h : Made fs fs' start steps)
    (hnode : fs'.node? place = some (.file id)) : fs.node? place = some (.file id) := by
  rcases h.node place with hsame | ⟨-, hmade, -⟩
  · exact hsame.symm.trans hnode
  · rw [hmade] at hnode
    cases hnode

theorem Made.sameFile {steps : List String} {other : Place} (h : Made fs fs' start steps)
    (hsame : fs'.SameFile place other) : fs.SameFile place other := by
  rcases hsame with rfl | ⟨id, hplace, hother⟩
  · exact .inl rfl
  · exact .inr ⟨id, h.file hplace, h.file hother⟩

/-! ### Writing and moving -/

/-- Writing a file changes what stands at its place, and at its other names. -/
theorem standing?_of_write (hs : fs.Sound) (h : fs.write q c = .ok fs')
    (hother : ¬ fs.SameFile place (fs.goal q)) : fs'.standing? place = fs.standing? place := by
  obtain ⟨written, hwritten, -, hfs'⟩ := write_eq_ok_iff.mp h
  obtain rfl := eq_goal_of_place hwritten
  rcases hfs' with ⟨id, hnode, rfl⟩ | ⟨hfree, rfl⟩
  · refine standing?_congr rfl fun other hplace => content_setContent_of_ne ?_ fs c
    rintro rfl
    exact hother (.inr ⟨other, hplace, hnode⟩)
  · have hne : place ≠ fs.goal q := fun heq => hother (.inl heq)
    refine standing?_congr (node?_put_of_ne hne fs _) fun other hother => ?_
    exact content_addFile_of_lt (hs place other hother) _ c

theorem standing?_of_write_self (hs : fs.Sound) (h : fs.write q c = .ok fs') :
    ∃ id, fs'.standing? (fs.goal q) = some (.file id c) := by
  obtain ⟨place, id, hplace, hnode, -, hcontent⟩ := read_eq_ok_iff.mp (read_of_write hs h)
  obtain rfl := eq_goal_of_place hplace
  rw [goal_congr (sameTree_of_write h).current] at hnode
  exact ⟨id, hcontent ▸ standing?_of_file hnode⟩

theorem SameFile.of_write (hs : fs.Sound) (h : fs.write q c = .ok fs')
    (hsame : fs'.SameFile place (fs.goal q)) : fs.SameFile place (fs.goal q) := by
  obtain ⟨written, hwritten, -, hfs'⟩ := write_eq_ok_iff.mp h
  obtain rfl := eq_goal_of_place hwritten
  rcases hfs' with ⟨id, -, rfl⟩ | ⟨hfree, rfl⟩
  · exact hsame
  · rcases hsame with heq | ⟨id, hplace, hgoal⟩
    · exact .inl heq
    · by_cases heq : place = fs.goal q
      · exact .inl heq
      · -- the file is a new one, and so it stands nowhere else
        have hnew : fs.node? (fs.goal q) ≠ some .directory := by simp [hfree]
        have hid : id = fs.contents.length := by
          have hadded := node?_put (ne_nil_of_node? hnew) fs (.file fs.contents.length)
          rw [addFile] at hgoal
          cases hadded.symm.trans hgoal
          rfl
        have hold : fs.node? place = some (.file id) :=
          (node?_put_of_ne heq fs (.file fs.contents.length)).symm.trans hplace
        exact absurd (hid ▸ hs place id hold) (Nat.lt_irrefl _)

theorem standing?_of_rename_other {source target : Path} (h : fs.rename source target = .ok fs')
    (hsource : place ≠ fs.goal source) (htarget : place ≠ fs.goal target) :
    fs'.standing? place = fs.standing? place := by
  obtain ⟨old, id, new, hold, -, -, hnew, -, -, rfl⟩ := rename_eq_ok_iff.mp h
  obtain rfl := eq_goal_of_place hold
  obtain rfl := eq_goal_of_place hnew
  exact standing?_congr (node?_move_of_ne hsource htarget) fun _ _ => content_move _

/-- A file that is moved is gone from one of its places and stands at the other, unless it stood at
both. -/
theorem standing?_of_rename {source target : Path} (h : fs.rename source target = .ok fs')
    (hne : ¬ fs.SameFile (fs.goal target) (fs.goal source)) :
    fs'.standing? (fs.goal source) = none ∧
      fs'.standing? (fs.goal target) = fs.standing? (fs.goal source) := by
  obtain ⟨old, id, new, hold, hnode, -, hnew, -, hdirectory, rfl⟩ := rename_eq_ok_iff.mp h
  obtain rfl := eq_goal_of_place hold
  obtain rfl := eq_goal_of_place hnew
  have hplaces : fs.goal source ≠ fs.goal target := fun heq => hne (.inl heq.symm)
  have hother : fs.node? (fs.goal target) ≠ some (.file id) := fun hid =>
    hne (.inr ⟨id, hid, hnode⟩)
  constructor
  · rw [standing?_eq_none_iff]
    exact node?_move_old (by simp [hnode]) hplaces hother
  · rw [standing?_of_file hnode, standing?_of_file (node?_move hdirectory), content_move]

/-- A file is read as long as what stands at its place and the directories on the way stay. -/
theorem Grown.read (h : Grown fs fs') (heq : fs'.standing? (fs.goal q) = fs.standing? (fs.goal q))
    (hread : fs.read q = .ok c) : fs'.read q = .ok c := by
  obtain ⟨place, id, hplace, hnode, hq, hcontent⟩ := read_eq_ok_iff.mp hread
  obtain rfl := eq_goal_of_place hplace
  have hnode' := h.node _ _ hnode
  rw [standing?_of_file hnode, standing?_of_file hnode', hcontent] at heq
  refine read_eq_ok_iff.mpr ⟨_, id, h.place_eq_ok hplace, hnode', hq, ?_⟩
  simpa using heq

end FlatQuery.Files
