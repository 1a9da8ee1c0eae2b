import FlatQuery.Files.Basic
import FlatQuery.Proofs.Lookup
import FlatQuery.Proofs.Outcome
import FlatQuery.Proofs.Files.Path

/-!
# Places and what stands there

Writing, renaming and removing files leaves the directories as they are (`SameTree`), so paths lead
where they led before (`SameTree.place_eq_ok_iff`).  What is written is what is read
(`read_of_write`), also after it was given another name (`read_of_rename`), and removing one file
does not touch another (`read_of_remove`).  Making directories adds some on the way and changes
nothing else (`made_makeSteps`).
-/

namespace FlatQuery.Files

variable {fs fs' : Files} {place other : Place} {p : Path}

/-! ### Entries -/

@[simp] theorem node?_nil (fs : Files) : fs.node? [] = some .directory := rfl

theorem node?_of_ne_nil (h : place ≠ []) : fs.node? place = fs.entries.lookup place :=
  if_neg h

theorem ne_nil_of_node? (h : fs.node? place ≠ some .directory) : place ≠ [] := by
  rintro rfl
  exact h fs.node?_nil

theorem node?_put (h : place ≠ []) (fs : Files) (node : Node) :
    (fs.put place node).node? place = some node := by
  rw [node?_of_ne_nil h]
  exact List.lookup_cons_self

theorem node?_put_of_ne (h : other ≠ place) (fs : Files) (node : Node) :
    (fs.put place node).node? other = fs.node? other := by
  by_cases hnil : other = []
  · rw [hnil, node?_nil, node?_nil]
  · rw [node?_of_ne_nil hnil, node?_of_ne_nil hnil]
    change ((place, node) :: fs.entries.filter (·.1 != place)).lookup other = _
    rw [lookup_cons_of_ne h, lookup_filter_of_ne h]

theorem node?_unlink (h : place ≠ []) (fs : Files) : (fs.unlink place).node? place = none := by
  rw [node?_of_ne_nil h]
  exact lookup_filter_self place fs.entries

theorem node?_unlink_of_ne (h : other ≠ place) (fs : Files) :
    (fs.unlink place).node? other = fs.node? other := by
  by_cases hnil : other = []
  · rw [hnil, node?_nil, node?_nil]
  · rw [node?_of_ne_nil hnil, node?_of_ne_nil hnil]
    exact lookup_filter_of_ne h fs.entries

/-! ### Contents -/

/-- Every file has a content. -/
def Sound (fs : Files) : Prop :=
  ∀ place id, fs.node? place = some (.file id) → id < fs.contents.length

theorem sound_of_all (h : (fs.entries.all fun entry =>
    match entry.2 with
    | .directory => true
    | .file id => decide (id < fs.contents.length)) = true) : fs.Sound := by
  intro place id hnode
  by_cases hnil : place = []
  · rw [hnil, node?_nil] at hnode
    cases hnode
  · rw [node?_of_ne_nil hnil] at hnode
    obtain ⟨earlier, later, hentries, -⟩ := List.lookup_eq_some_iff.mp hnode
    have hentry := List.all_eq_true.mp h (place, .file id) (by simp [hentries])
    exact of_decide_eq_true hentry

theorem Sound.unlink (hs : fs.Sound) (place : Place) : (fs.unlink place).Sound := by
  intro other id h
  by_cases hne : other = place
  · subst hne
    by_cases hnil : other = []
    · rw [hnil, node?_nil] at h
      cases h
    · rw [node?_unlink hnil] at h
      cases h
  · rw [node?_unlink_of_ne hne] at h
    exact hs other id h

theorem Sound.put (hs : fs.Sound) (place : Place) {node : Node}
    (hnode : ∀ id, node = .file id → id < fs.contents.length) : (fs.put place node).Sound := by
  intro other id h
  by_cases hne : other = place
  · subst hne
    by_cases hnil : other = []
    · rw [hnil, node?_nil] at h
      cases h
    · rw [node?_put hnil] at h
      exact hnode id (Option.some.inj h)
  · rw [node?_put_of_ne hne] at h
    exact hs other id h

theorem Sound.setContent (hs : fs.Sound) (id : Nat) (c : Content) : (fs.setContent id c).Sound := by
  intro place other h
  have hlt := hs place other h
  rwa [Files.setContent, List.length_set]

theorem Sound.addFile (hs : fs.Sound) (place : Place) (c : Content) : (fs.addFile place c).Sound := by
  have hwider : Sound { fs with contents := fs.contents ++ [c] } := by
    intro other id h
    have hlt := hs other id h
    simp only [List.length_append, List.length_singleton]
    omega
  have hnode : ∀ id, Node.file fs.contents.length = .file id →
      id < (fs.contents ++ [c]).length := by
    rintro id ⟨⟩
    simp only [List.length_append, List.length_singleton]
    omega
  exact hwider.put place hnode

theorem content_setContent {id : Nat} (h : id < fs.contents.length) (c : Content) :
    (fs.setContent id c).content id = c := by
  simp only [content, setContent, List.getD_eq_getElem?_getD, List.getElem?_set_self h,
    Option.getD_some]

theorem content_addFile (fs : Files) (place : Place) (c : Content) :
    (fs.addFile place c).content fs.contents.length = c := by
  simp only [content, addFile, put, List.getD_eq_getElem?_getD, List.getElem?_concat_length,
    Option.getD_some]

/-! ### Following steps -/

def turn (place : Place) (step : String) : Place :=
  if step = "." then place else if step = ".." then place.dropLast else place ++ [step]

theorem turn_name {name : String} (hname : Path.IsName name) (place : Place) :
    turn place name = place ++ [name] := by
  rw [turn, if_neg hname.ne_dot, if_neg hname.ne_dots]

theorem follow_cons_eq_ok_iff {step : String} {rest : List String} {end_ : Place} :
    fs.follow place (step :: rest) = .ok end_ ↔
      fs.node? place = some .directory ∧ fs.follow (turn place step) rest = .ok end_ := by
  rw [follow, turn]
  cases hnode : fs.node? place with
  | none => simp
  | some node =>
    cases node with
    | file id => simp
    | directory =>
      simp only [true_and]
      split
      · rfl
      · split
        · rfl
        · rfl

theorem follow_append_eq_ok_iff {earlier later : List String} {end_ : Place} :
    fs.follow place (earlier ++ later) = .ok end_ ↔
      ∃ middle, fs.follow place earlier = .ok middle ∧ fs.follow middle later = .ok end_ := by
  induction earlier generalizing place with
  | nil =>
    constructor
    · intro h
      exact ⟨place, rfl, h⟩
    · rintro ⟨middle, hmiddle, h⟩
      obtain rfl := Except.ok.inj hmiddle
      exact h
  | cons step rest ih =>
    simp only [List.cons_append, follow_cons_eq_ok_iff, ih, and_assoc, exists_and_left]

theorem node?_of_follow {steps : List String} (hfollow : fs.follow place steps = .ok other)
    (hother : fs.node? other = some .directory) : fs.node? place = some .directory := by
  cases steps with
  | nil =>
    obtain rfl := Except.ok.inj hfollow
    exact hother
  | cons step rest => exact (follow_cons_eq_ok_iff.mp hfollow).1

theorem place_eq_ok_iff : fs.place p = .ok place ↔
    p.text ≠ "" ∧ fs.follow (fs.start p) p.walk = .ok place := by
  rw [Files.place]
  by_cases hp : p.text = ""
  · simp [hp]
  · have hempty : p.text.isEmpty = false := by simpa using hp
    simp [hempty, hp]

/-! ### Directories -/

/-- Two states of the files with the same directories. -/
structure SameTree (fs fs' : Files) : Prop where
  current : fs'.current = fs.current
  directory : ∀ place, fs'.node? place = some .directory ↔ fs.node? place = some .directory

namespace SameTree

theorem symm (h : SameTree fs fs') : SameTree fs' fs :=
  ⟨h.current.symm, fun place => (h.directory place).symm⟩

theorem trans {fs'' : Files} (h : SameTree fs fs') (h' : SameTree fs' fs'') : SameTree fs fs'' :=
  ⟨h'.current.trans h.current, fun place => (h'.directory place).trans (h.directory place)⟩

theorem put (h : fs.node? place ≠ some .directory) (id : Nat) :
    SameTree fs (fs.put place (.file id)) := by
  refine ⟨rfl, fun other => ?_⟩
  by_cases hne : other = place
  · subst hne
    rw [node?_put (ne_nil_of_node? h)]
    exact ⟨fun h' => (nomatch h'), fun h' => absurd h' h⟩
  · rw [node?_put_of_ne hne]

theorem unlink (h : fs.node? place ≠ some .directory) : SameTree fs (fs.unlink place) := by
  refine ⟨rfl, fun other => ?_⟩
  by_cases hne : other = place
  · subst hne
    rw [node?_unlink (ne_nil_of_node? h)]
    exact ⟨fun h' => (nomatch h'), fun h' => absurd h' h⟩
  · rw [node?_unlink_of_ne hne]

theorem follow_eq_ok (h : SameTree fs fs') {steps : List String} {end_ : Place}
    (hfollow : fs.follow place steps = .ok end_) : fs'.follow place steps = .ok end_ := by
  induction steps generalizing place with
  | nil => exact hfollow
  | cons step rest ih =>
    obtain ⟨hnode, hrest⟩ := (follow_cons_eq_ok_iff).mp hfollow
    exact (follow_cons_eq_ok_iff).mpr ⟨(h.directory place).mpr hnode, ih hrest⟩

theorem place_eq_ok_iff (h : SameTree fs fs') : fs'.place p = .ok place ↔ fs.place p = .ok place := by
  have hplace : ∀ {fs fs' : Files}, SameTree fs fs' → fs.place p = .ok place →
      fs'.place p = .ok place := by
    intro fs fs' h hplace
    have hstart : fs'.start p = fs.start p := by
      rw [start, start, h.current]
    obtain ⟨htext, hfollow⟩ := (Files.place_eq_ok_iff).mp hplace
    refine (Files.place_eq_ok_iff).mpr ⟨htext, ?_⟩
    rw [hstart]
    exact h.follow_eq_ok hfollow
  exact ⟨hplace h.symm, hplace h⟩

end SameTree

/-! ### Reading and writing -/

/-- What is found is what stands at the place; a path that asks for a directory finds no file. -/
theorem find_eq_ok_iff {node : Node} : fs.find p = .ok node ↔
    ∃ place, fs.place p = .ok place ∧ fs.node? place = some node ∧
      (node = .directory ∨ p.asksDirectory = false) := by
  rw [find, Outcome.bind_eq_ok_iff]
  refine exists_congr fun place => and_congr_right fun _ => ?_
  cases hnode : fs.node? place with
  | none => simp
  | some found =>
    cases found with
    | directory =>
      constructor
      · intro h
        exact ⟨congrArg some (Except.ok.inj h), .inl (Except.ok.inj h).symm⟩
      · rintro ⟨h, -⟩
        exact congrArg Except.ok (Option.some.inj h)
    | file id =>
      cases hp : p.asksDirectory with
      | true =>
        constructor
        · intro h
          cases h
        · rintro ⟨h, rfl | h'⟩
          · cases h
          · cases h'
      | false => simp

theorem find_eq_file_iff {id : Nat} : fs.find p = .ok (.file id) ↔
    ∃ place, fs.place p = .ok place ∧ fs.node? place = some (.file id) ∧
      p.asksDirectory = false := by
  simp [find_eq_ok_iff]

theorem read_eq_ok_iff {c : Content} : fs.read p = .ok c ↔
    ∃ place id, fs.place p = .ok place ∧ fs.node? place = some (.file id) ∧
      p.asksDirectory = false ∧ fs.content id = c := by
  rw [read, Outcome.bind_eq_ok_iff]
  constructor
  · rintro ⟨node, hnode, hread⟩
    cases node with
    | directory => cases hread
    | file id =>
      obtain ⟨place, hplace, hid, hp⟩ := (find_eq_file_iff).mp hnode
      exact ⟨place, id, hplace, hid, hp, Except.ok.inj hread⟩
  · rintro ⟨place, id, hplace, hid, hp, hread⟩
    exact ⟨.file id, (find_eq_file_iff).mpr ⟨place, hplace, hid, hp⟩, congrArg Except.ok hread⟩

/-- Writing succeeds on a file, whose content is replaced, and at a free place. -/
theorem write_eq_ok_iff {c : Content} : fs.write p c = .ok fs' ↔
    ∃ place, fs.place p = .ok place ∧ p.asksDirectory = false ∧
      ((∃ id, fs.node? place = some (.file id) ∧ fs' = fs.setContent id c) ∨
        fs.node? place = none ∧ fs' = fs.addFile place c) := by
  rw [write, Outcome.bind_eq_ok_iff]
  refine exists_congr fun place => and_congr_right fun _ => ?_
  cases hnode : fs.node? place with
  | none =>
    cases hp : p.asksDirectory with
    | true => simp
    | false => simp [eq_comm]
  | some node =>
    cases node with
    | directory => simp
    | file id =>
      cases hp : p.asksDirectory with
      | true => simp
      | false => simp [eq_comm]

theorem sameTree_of_write {c : Content} (h : fs.write p c = .ok fs') : SameTree fs fs' := by
  obtain ⟨place, -, -, ⟨id, -, rfl⟩ | ⟨hnode, rfl⟩⟩ := (write_eq_ok_iff).mp h
  · exact ⟨rfl, fun _ => Iff.rfl⟩
  · have hput : SameTree fs (fs.put place (.file fs.contents.length)) :=
      .put (by simp [hnode]) _
    exact ⟨rfl, hput.directory⟩

/-- **What is written is read.** -/
theorem read_of_write {c : Content} (hs : fs.Sound) (h : fs.write p c = .ok fs') :
    fs'.read p = .ok c := by
  have htree := sameTree_of_write h
  obtain ⟨place, hplace, hp, ⟨id, hnode, rfl⟩ | ⟨hnode, rfl⟩⟩ := (write_eq_ok_iff).mp h
  · refine (read_eq_ok_iff).mpr ⟨place, id, htree.place_eq_ok_iff.mpr hplace, hnode, hp, ?_⟩
    exact content_setContent (hs place id hnode) c
  · have hdirectory : fs.node? place ≠ some .directory := by simp [hnode]
    refine (read_eq_ok_iff).mpr ⟨place, fs.contents.length, htree.place_eq_ok_iff.mpr hplace, ?_, hp, ?_⟩
    · exact node?_put (ne_nil_of_node? hdirectory) fs _
    · exact content_addFile fs place c

theorem Sound.write {c : Content} (hs : fs.Sound) (h : fs.write p c = .ok fs') : fs'.Sound := by
  obtain ⟨place, -, -, ⟨id, -, rfl⟩ | ⟨-, rfl⟩⟩ := (write_eq_ok_iff).mp h
  · exact hs.setContent id c
  · exact hs.addFile place c

theorem now_of_write {c : Content} (h : fs.write p c = .ok fs') : fs'.now = fs.now := by
  obtain ⟨place, -, -, ⟨id, -, rfl⟩ | ⟨-, rfl⟩⟩ := (write_eq_ok_iff).mp h
  · rfl
  · rfl

/-! ### Renaming -/

section

variable {old new : Place} {id : Nat}

theorem node?_move (h : fs.node? new ≠ some .directory) :
    (fs.move old new id).node? new = some (.file id) := by
  rw [move]
  split
  · next hsame => exact hsame
  · exact node?_put (ne_nil_of_node? h) _ _

theorem node?_move_of_ne (hold : other ≠ old) (hnew : other ≠ new) :
    (fs.move old new id).node? other = fs.node? other := by
  rw [move]
  split
  · rfl
  · rw [node?_put_of_ne hnew, node?_unlink_of_ne hold]

/-- A file that is moved is gone from its old place, unless the new one was another name of it. -/
theorem node?_move_old (h : fs.node? old ≠ some .directory) (hne : old ≠ new)
    (hother : fs.node? new ≠ some (.file id)) : (fs.move old new id).node? old = none := by
  rw [move, if_neg hother, node?_put_of_ne hne, node?_unlink (ne_nil_of_node? h)]

theorem eq_of_node?_move {other : Nat} (hold : fs.node? old = some (.file id))
    (h : (fs.move old new id).node? old = some (.file other)) : other = id := by
  by_cases hsame : fs.node? new = some (.file id)
  · rw [move, if_pos hsame, hold] at h
    cases h
    rfl
  · have hne : old ≠ new := fun heq => hsame (heq ▸ hold)
    rw [node?_move_old (by simp [hold]) hne hsame] at h
    cases h

theorem content_move (content : Nat) :
    (fs.move old new id).content content = fs.content content := by
  rw [move]
  split
  · rfl
  · rfl

theorem now_move : (fs.move old new id).now = fs.now := by
  rw [move]
  split
  · rfl
  · rfl

theorem SameTree.move (hold : fs.node? old ≠ some .directory)
    (hnew : fs.node? new ≠ some .directory) (id : Nat) : SameTree fs (fs.move old new id) := by
  have hunlink : SameTree fs (fs.unlink old) := .unlink hold
  rw [Files.move]
  split
  · exact ⟨rfl, fun _ => Iff.rfl⟩
  · exact hunlink.trans (.put (fun h => hnew ((hunlink.directory new).mp h)) id)

theorem Sound.move (hs : fs.Sound) (hold : fs.node? old = some (.file id)) :
    (fs.move old new id).Sound := by
  rw [Files.move]
  split
  · exact hs
  · refine (hs.unlink old).put new ?_
    rintro _ ⟨⟩
    exact hs old id hold

end

theorem rename_eq_ok_iff {source target : Path} : fs.rename source target = .ok fs' ↔
    ∃ old id new, fs.place source = .ok old ∧ fs.node? old = some (.file id) ∧
      source.asksDirectory = false ∧ fs.place target = .ok new ∧ target.asksDirectory = false ∧
      fs.node? new ≠ some .directory ∧ fs' = fs.move old new id := by
  rw [rename, Outcome.bind_eq_ok_iff]
  constructor
  · rintro ⟨old, hold, h⟩
    obtain ⟨node, hfind, h⟩ := Outcome.bind_eq_ok_iff.mp h
    cases node with
    | directory => cases h
    | file id =>
      obtain ⟨old', hold', hnode, hsource⟩ := (find_eq_file_iff).mp hfind
      rw [hold] at hold'
      obtain rfl := Except.ok.inj hold'
      obtain ⟨new, hnew, h⟩ := Outcome.bind_eq_ok_iff.mp h
      refine ⟨old, id, new, hold, hnode, hsource, hnew, ?_⟩
      split at h
      · cases h
      · next htarget =>
        refine ⟨Bool.not_eq_true _ ▸ htarget, ?_⟩
        split at h
        · cases h
        · next hdirectory => exact ⟨hdirectory, (Except.ok.inj h).symm⟩
  · rintro ⟨old, id, new, hold, hnode, hsource, hnew, htarget, hdirectory, rfl⟩
    refine ⟨old, hold, ?_⟩
    rw [(find_eq_file_iff).mpr ⟨old, hold, hnode, hsource⟩, Outcome.ok_bind]
    simp only [hnew, Outcome.ok_bind, htarget, Bool.false_eq_true, if_false]

theorem sameTree_of_rename {source target : Path} (h : fs.rename source target = .ok fs') :
    SameTree fs fs' := by
  obtain ⟨old, id, new, -, hnode, -, -, -, hdirectory, rfl⟩ := (rename_eq_ok_iff).mp h
  exact .move (by simp [hnode]) hdirectory id

theorem read_of_rename {source target : Path} {c : Content} (hread : fs.read source = .ok c)
    (h : fs.rename source target = .ok fs') : fs'.read target = .ok c := by
  have htree := sameTree_of_rename h
  obtain ⟨old, id, new, hold, hnode, -, hnew, htarget, hdirectory, rfl⟩ := (rename_eq_ok_iff).mp h
  obtain ⟨old', id', hold', hnode', -, hcontent⟩ := (read_eq_ok_iff).mp hread
  rw [hold] at hold'
  obtain rfl := Except.ok.inj hold'
  rw [hnode] at hnode'
  cases hnode'
  exact (read_eq_ok_iff).mpr ⟨new, id, htree.place_eq_ok_iff.mpr hnew, node?_move hdirectory,
    htarget, (content_move id).trans hcontent⟩

theorem Sound.rename (hs : fs.Sound) {source target : Path} (h : fs.rename source target = .ok fs') :
    fs'.Sound := by
  obtain ⟨old, id, new, -, hnode, -, -, -, -, rfl⟩ := (rename_eq_ok_iff).mp h
  exact hs.move hnode

theorem now_of_rename {source target : Path} (h : fs.rename source target = .ok fs') :
    fs'.now = fs.now := by
  obtain ⟨old, id, new, -, -, -, -, -, -, rfl⟩ := (rename_eq_ok_iff).mp h
  exact now_move

/-! ### Removing -/

theorem remove_eq_ok_iff : fs.remove p = .ok fs' ↔
    ∃ place id, fs.place p = .ok place ∧ fs.node? place = some (.file id) ∧
      p.asksDirectory = false ∧ fs' = fs.unlink place := by
  rw [remove, Outcome.bind_eq_ok_iff]
  constructor
  · rintro ⟨node, hfind, h⟩
    cases node with
    | directory => cases h
    | file id =>
      obtain ⟨place, hplace, hnode, hp⟩ := (find_eq_file_iff).mp hfind
      simp only [hplace, Outcome.ok_bind] at h
      exact ⟨place, id, hplace, hnode, hp, (Except.ok.inj h).symm⟩
  · rintro ⟨place, id, hplace, hnode, hp, rfl⟩
    refine ⟨.file id, (find_eq_file_iff).mpr ⟨place, hplace, hnode, hp⟩, ?_⟩
    simp only [hplace, Outcome.ok_bind]

theorem Sound.remove (hs : fs.Sound) (h : fs.remove p = .ok fs') : fs'.Sound := by
  obtain ⟨place, id, -, -, -, rfl⟩ := (remove_eq_ok_iff).mp h
  exact hs.unlink place

theorem now_of_remove (h : fs.remove p = .ok fs') : fs'.now = fs.now := by
  obtain ⟨place, id, -, -, -, rfl⟩ := (remove_eq_ok_iff).mp h
  rfl

theorem read_of_remove {q : Path} {c : Content} (hne : fs.place p ≠ fs.place q)
    (hread : fs.read q = .ok c) (h : fs.remove p = .ok fs') : fs'.read q = .ok c := by
  obtain ⟨place, id, hplace, hnode, -, rfl⟩ := (remove_eq_ok_iff).mp h
  obtain ⟨other, id', hother, hnode', hq, hcontent⟩ := (read_eq_ok_iff).mp hread
  have htree : SameTree fs (fs.unlink place) := .unlink (by simp [hnode])
  refine (read_eq_ok_iff).mpr ⟨other, id', htree.place_eq_ok_iff.mpr hother, ?_, hq, hcontent⟩
  rw [node?_unlink_of_ne ?_]
  · exact hnode'
  · rintro rfl
    exact hne (hplace.trans hother.symm)

/-! ### Making directories -/

/-- At a step, making directories goes on where one stands, stops at a file, or makes one. -/
theorem makeSteps_cons_cases (fs : Files) (place : Place) (step : String) (rest : List String) :
    fs.makeSteps place (step :: rest) = fs.makeSteps (turn place step) rest ∨
      (∃ e, fs.makeSteps place (step :: rest) = (.error e, fs)) ∨
      fs.node? (turn place step) = none ∧ ∃ outcome,
        fs.makeSteps place (step :: rest) =
          (outcome, ((fs.put (turn place step) .directory).makeSteps (turn place step) rest).2) := by
  rw [makeSteps, turn]
  split
  · exact .inl rfl
  · split
    · exact .inl rfl
    · cases hnode : fs.node? (place ++ [step]) with
      | none =>
        refine .inr (.inr ⟨rfl, ?_⟩)
        simp only [hnode]
        cases (fs.put (place ++ [step]) .directory).makeSteps (place ++ [step]) rest with
        | mk outcome made =>
          cases outcome with
          | error e => exact ⟨_, rfl⟩
          | ok _ => exact ⟨_, rfl⟩
      | some node =>
        cases node with
        | directory =>
          left
          simp only [hnode]
        | file id =>
          right
          left
          simp only [hnode]
          exact ⟨_, rfl⟩

/-- The files after directories on the way of some steps have been made, all that are missing or only
the first of them. -/
structure Made (fs fs' : Files) (place : Place) (steps : List String) : Prop where
  contents : fs'.contents = fs.contents
  current : fs'.current = fs.current
  now : fs'.now = fs.now
  node : ∀ other, fs'.node? other = fs.node? other ∨
    fs.node? other = none ∧ fs'.node? other = some .directory ∧
      ∃ front, front <+: steps ∧ other = front.foldl turn place

namespace Made

variable {steps : List String}

theorem refl (fs : Files) (place : Place) (steps : List String) : Made fs fs place steps :=
  ⟨rfl, rfl, rfl, fun _ => .inl rfl⟩

theorem cons {step : String} (h : Made fs fs' (turn place step) steps) :
    Made fs fs' place (step :: steps) := by
  refine ⟨h.contents, h.current, h.now, fun other => ?_⟩
  rcases h.node other with hsame | ⟨hfree, hmade, front, hfront, hother⟩
  · exact .inl hsame
  · exact .inr ⟨hfree, hmade, step :: front, List.cons_prefix_cons.mpr ⟨rfl, hfront⟩, hother⟩

theorem put_cons {step : String} (hfree : fs.node? (turn place step) = none)
    (h : Made (fs.put (turn place step) .directory) fs' (turn place step) steps) :
    Made fs fs' place (step :: steps) := by
  have hdirectory : fs.node? (turn place step) ≠ some .directory := by simp [hfree]
  have hnil : turn place step ≠ [] := ne_nil_of_node? hdirectory
  refine ⟨h.contents, h.current, h.now, fun other => ?_⟩
  by_cases hother : other = turn place step
  · -- the directory made at this step stays
    subst hother
    have hput := node?_put hnil fs .directory
    refine .inr ⟨hfree, ?_, [step], List.cons_prefix_cons.mpr ⟨rfl, List.nil_prefix⟩, rfl⟩
    rcases h.node (turn place step) with hsame | ⟨hnone, -⟩
    · exact hsame.trans hput
    · rw [hput] at hnone
      cases hnone
  · have hrest := h.cons.node other
    rw [node?_put_of_ne hother] at hrest
    exact hrest

theorem sound (h : Made fs fs' place steps) (hs : fs.Sound) : fs'.Sound := by
  intro other id hnode
  rw [h.contents]
  rcases h.node other with hsame | ⟨-, hmade, -⟩
  · exact hs other id (hsame ▸ hnode)
  · rw [hmade] at hnode
    cases hnode

end Made

/-- **Making directories.**  Whether or not all steps can be taken, directories are made on their way
only, and where nothing stood. -/
theorem made_makeSteps (fs : Files) (place : Place) (steps : List String) :
    Made fs (fs.makeSteps place steps).2 place steps := by
  induction steps generalizing fs place with
  | nil => exact .refl fs place []
  | cons step rest ih =>
    obtain hgo | ⟨e, hstop⟩ | ⟨hfree, outcome, hmake⟩ := makeSteps_cons_cases fs place step rest
    · rw [hgo]
      exact (ih fs (turn place step)).cons
    · rw [hstop]
      exact .refl fs place (step :: rest)
    · rw [hmake]
      exact .put_cons hfree (ih _ _)

theorem createSteps_eq_ok_iff {steps : List String} :
    fs.createSteps place steps = .ok fs' ↔ fs.makeSteps place steps = (.ok (), fs') := by
  rw [createSteps]
  cases fs.makeSteps place steps with
  | mk outcome made =>
    cases outcome with
    | error e => simp
    | ok _ => simp

theorem createParents_eq_ok_iff : fs.createParents p = .ok fs' ↔ fs.makeParents p = (.ok (), fs') :=
  createSteps_eq_ok_iff

theorem made_of_createSteps {steps : List String} (h : fs.createSteps place steps = .ok fs') :
    Made fs fs' place steps := by
  have hmade := made_makeSteps fs place steps
  rwa [createSteps_eq_ok_iff.mp h] at hmade

theorem made_of_makeParents {outcome : Except Error Unit} (h : fs.makeParents p = (outcome, fs')) :
    Made fs fs' (fs.start p) p.walk.dropLast := by
  have hmade := made_makeSteps fs (fs.start p) p.walk.dropLast
  rwa [← makeParents, h] at hmade

theorem makeSteps_of_follow {steps : List String} (hfollow : fs.follow place steps = .ok other)
    (hother : fs.node? other = some .directory) : fs.makeSteps place steps = (.ok (), fs) := by
  induction steps generalizing place with
  | nil => rfl
  | cons step rest ih =>
    obtain ⟨-, hrest⟩ := (follow_cons_eq_ok_iff).mp hfollow
    have hturn := node?_of_follow hrest hother
    have hmake := ih hrest
    rw [makeSteps]
    rw [turn] at hturn hmake
    split
    · next hdot =>
      rw [if_pos hdot] at hmake
      exact hmake
    · next hdot =>
      rw [if_neg hdot] at hturn hmake
      split
      · next hdots =>
        rw [if_pos hdots] at hmake
        exact hmake
      · next hdots =>
        rw [if_neg hdots] at hturn hmake
        simp only [hturn]
        exact hmake

theorem createParents_of_place (h : fs.place p = .ok place) : fs.createParents p = .ok fs := by
  obtain ⟨-, hfollow⟩ := (place_eq_ok_iff).mp h
  rw [createParents]
  rcases List.eq_nil_or_concat p.walk with hwalk | ⟨earlier, last, hwalk⟩
  · rw [hwalk]
    rfl
  · rw [hwalk, List.concat_eq_append] at hfollow
    obtain ⟨middle, hmiddle, hlast⟩ := (follow_append_eq_ok_iff).mp hfollow
    rw [hwalk, List.concat_eq_append, List.dropLast_concat]
    exact createSteps_eq_ok_iff.mpr
      (makeSteps_of_follow hmiddle (follow_cons_eq_ok_iff.mp hlast).1)

theorem place_join {root : Path} {name : String} (hname : Path.IsName name)
    (hroot : fs.place root = .ok place) (hdirectory : fs.node? place = some .directory) :
    fs.place (root.join ⟨name⟩) = .ok (place ++ [name]) := by
  obtain ⟨htext, hfollow⟩ := (place_eq_ok_iff).mp hroot
  have hstart : fs.start (root.join ⟨name⟩) = fs.start root := by
    rw [start, start, Path.isAbsolute_join hname htext]
  have hjoin : (root.join ⟨name⟩).text ≠ "" := by
    obtain ⟨cs, -, hcs⟩ := Path.toList_join hname htext
    intro hempty
    rw [hempty] at hcs
    simp at hcs
  refine (place_eq_ok_iff).mpr ⟨hjoin, ?_⟩
  rw [hstart, Path.walk_join hname htext]
  refine (follow_append_eq_ok_iff).mpr ⟨place, hfollow, (follow_cons_eq_ok_iff).mpr ⟨hdirectory, ?_⟩⟩
  rw [turn_name hname]
  rfl

end FlatQuery.Files
