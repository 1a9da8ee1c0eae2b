import FlatQuery.Proofs.Files.Standing

/-!
# Changes that are confined to places

Whatever is done to files changes what stands at some places and leaves all others alone, and where a
directory stood it stays (`Confined`).  Making directories, writing, moving and removing a file are
confined to the places that one expects, with those of its other names if a file is written.  A path
that is clear of these places (`Clear`) leads where it led, and what it leads to is read as before, or
cannot be read for the same reason (`Confined.find_eq`, `Confined.read_eq`).
-/

namespace FlatQuery.Files

variable {fs fs' fs'' : Files} {P Q : Place → Prop} {place start : Place} {p q : Path}

/-- That files have changed at certain places only, and where no directory stood. -/
structure Confined (P : Place → Prop) (fs fs' : Files) : Prop where
  current : fs'.current = fs.current
  standing : ∀ place, (P place → fs.standing? place = some .directory) →
    fs'.standing? place = fs.standing? place

namespace Confined

theorem refl (P : Place → Prop) (fs : Files) : Confined P fs fs :=
  ⟨rfl, fun _ _ => rfl⟩

theorem trans (h : Confined P fs fs') (h' : Confined P fs' fs'') : Confined P fs fs'' := by
  refine ⟨h'.current.trans h.current, fun place hplace => ?_⟩
  have hsame := h.standing place hplace
  exact (h'.standing place fun hP => hsame.trans (hplace hP)).trans hsame

theorem mono (h : Confined P fs fs') (hPQ : ∀ place, P place → Q place) : Confined Q fs fs' :=
  ⟨h.current, fun place hplace => h.standing place fun hP => hplace (hPQ place hP)⟩

theorem of_sameTree (htree : SameTree fs fs')
    (h : ∀ place, ¬ P place → fs'.standing? place = fs.standing? place) : Confined P fs fs' := by
  refine ⟨htree.current, fun place hplace => ?_⟩
  by_cases hP : P place
  · have hdirectory := standing?_eq_directory_iff.mp (hplace hP)
    rw [hplace hP]
    exact standing?_of_directory ((htree.directory place).mpr hdirectory)
  · exact h place hP

end Confined

/-! ### What operations are confined to -/

theorem Made.confined {steps : List String} (h : Made fs fs' (fs.start p) steps)
    (hsteps : steps <+: p.walk.dropLast) :
    Confined (fun place => fs.standing? place = none ∧ fs.OnTheWay p place) fs fs' := by
  refine ⟨h.current, fun place hplace => ?_⟩
  rcases h.asBefore hsteps place with hsame | ⟨hnone, -, hway⟩
  · exact hsame
  · -- nothing stood there, so no directory did
    rw [hplace ⟨hnone, hway⟩] at hnone
    cases hnone

/-- A file is written at its place, under all names that it has. -/
theorem confined_of_write {c : Content} (hs : fs.Sound) (h : fs.write q c = .ok fs') :
    Confined (fun place => fs.SameFile place (fs.goal q)) fs fs' :=
  .of_sameTree (sameTree_of_write h) fun _ => standing?_of_write hs h

theorem confined_of_rename {source target : Path} (h : fs.rename source target = .ok fs') :
    Confined (fun place => place = fs.goal source ∨ place = fs.goal target) fs fs' := by
  refine .of_sameTree (sameTree_of_rename h) fun place hplace => ?_
  exact standing?_of_rename_other h (fun heq => hplace (.inl heq)) fun heq => hplace (.inr heq)

theorem confined_of_remove (h : fs.remove p = .ok fs') :
    Confined (fun place => place = fs.goal p) fs fs' := by
  obtain ⟨place, id, hplace, hnode, -, rfl⟩ := remove_eq_ok_iff.mp h
  obtain rfl := eq_goal_of_place hplace
  refine .of_sameTree (.unlink (by simp [hnode])) fun other hother => ?_
  exact standing?_congr (node?_unlink_of_ne hother fs) fun _ _ => rfl

/-! ### Paths that are clear of the places -/

/-- A path leads through a place, or to it. -/
def Along (fs : Files) (q : Path) (place : Place) : Prop :=
  ∃ front, front <+: q.walk ∧ place = front.foldl turn (fs.start q)

theorem along_goal (fs : Files) (q : Path) : fs.Along q (fs.goal q) :=
  ⟨q.walk, List.prefix_rfl, rfl⟩

/-- That a path meets none of certain places, except for directories. -/
def Clear (P : Place → Prop) (fs : Files) (q : Path) : Prop :=
  ∀ place, fs.Along q place → P place → fs.standing? place = some .directory

theorem node?_of_follow_before {front steps : List String} (hfront : front <+: steps)
    (hne : front ≠ steps) (h : fs.follow start steps = .ok place) :
    fs.node? (front.foldl turn start) = some .directory := by
  obtain ⟨rest, rfl⟩ := hfront
  obtain ⟨middle, hmiddle, hrest⟩ := follow_append_eq_ok_iff.mp h
  obtain rfl := eq_foldl_of_follow hmiddle
  cases rest with
  | nil => exact absurd (List.append_nil front).symm hne
  | cons step rest => exact (follow_cons_eq_ok_iff.mp hrest).1

theorem Clear.of_find {node : Node} (hfind : fs.find q = .ok node) (hgoal : ¬ P (fs.goal q)) :
    Clear P fs q := by
  obtain ⟨place, hplace, -⟩ := find_eq_ok_iff.mp hfind
  rintro _ ⟨front, hfront, rfl⟩ hP
  have hne : front ≠ q.walk := by
    rintro rfl
    exact hgoal hP
  exact standing?_of_directory (node?_of_follow_before hfront hne (place_eq_ok_iff.mp hplace).2)

theorem node?_eq_of_standing? (h : fs'.standing? place = fs.standing? place) :
    fs'.node? place = fs.node? place := by
  cases hnode : fs.node? place with
  | none => exact standing?_eq_none_iff.mp (h.trans (standing?_eq_none_iff.mpr hnode))
  | some node =>
    cases node with
    | directory => exact standing?_eq_directory_iff.mp (h.trans (standing?_of_directory hnode))
    | file id => exact (standing?_eq_file_iff.mp (h.trans (standing?_of_file hnode))).1

theorem follow_congr {steps : List String}
    (h : ∀ front, front <+: steps →
      fs'.node? (front.foldl turn start) = fs.node? (front.foldl turn start)) :
    fs'.follow start steps = fs.follow start steps := by
  induction steps generalizing start with
  | nil => rfl
  | cons step rest ih =>
    have hrest : fs'.follow (turn start step) rest = fs.follow (turn start step) rest :=
      ih fun front hfront => h (step :: front) (List.cons_prefix_cons.mpr ⟨rfl, hfront⟩)
    have hstart : fs'.node? start = fs.node? start := h [] List.nil_prefix
    rw [turn] at hrest
    rw [follow, follow, hstart]
    split
    · rfl
    · rfl
    · split
      · next hdot => rwa [if_pos hdot] at hrest
      · next hdot =>
        rw [if_neg hdot] at hrest
        split
        · next hdots => rwa [if_pos hdots] at hrest
        · next hdots => rwa [if_neg hdots] at hrest

namespace Confined

theorem along (h : Confined P fs fs') (hq : Clear P fs q) (hplace : fs.Along q place) :
    fs'.standing? place = fs.standing? place :=
  h.standing place (hq place hplace)

theorem place_eq (h : Confined P fs fs') (hq : Clear P fs q) : fs'.place q = fs.place q := by
  have hstart : fs'.start q = fs.start q := start_congr h.current q
  have hfollow : fs'.follow (fs.start q) q.walk = fs.follow (fs.start q) q.walk :=
    follow_congr fun front hfront => node?_eq_of_standing? (h.along hq ⟨front, hfront, rfl⟩)
  rw [Files.place, hstart, hfollow, Files.place]

/-- What was found at a path is found there, or is missing for the same reason. -/
theorem find_eq (h : Confined P fs fs') (hq : Clear P fs q) : fs'.find q = fs.find q := by
  rw [Files.find, h.place_eq hq, Files.find]
  cases hplace : fs.place q with
  | error e => rfl
  | ok place =>
    obtain rfl := eq_goal_of_place hplace
    have hnode := node?_eq_of_standing? (h.along hq (along_goal fs q))
    simp only [Outcome.ok_bind, hnode]

theorem content_eq (h : Confined P fs fs') (hq : Clear P fs q) {id : Nat}
    (hfind : fs.find q = .ok (.file id)) : fs'.content id = fs.content id := by
  obtain ⟨place, hplace, hnode, -⟩ := find_eq_file_iff.mp hfind
  obtain rfl := eq_goal_of_place hplace
  have hsame := h.along hq (along_goal fs q)
  exact (standing?_eq_file_iff.mp (hsame.trans (standing?_of_file hnode))).2

theorem read_eq (h : Confined P fs fs') (hq : Clear P fs q) : fs'.read q = fs.read q := by
  rw [Files.read, h.find_eq hq, Files.read]
  cases hfind : fs.find q with
  | error e => rfl
  | ok node =>
    cases node with
    | directory => rfl
    | file id => simp only [Outcome.ok_bind, h.content_eq hq hfind]

end Confined

end FlatQuery.Files
