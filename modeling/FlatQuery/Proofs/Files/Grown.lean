import FlatQuery.Proofs.Files.Place

/-!
# Files that are added

Making directories and files adds entries and removes none (`Grown`): whatever was found at a path
is found there still.  Only the file that is written gets another content
(`content_of_write`), so every other file is read as before (`read_of_write_other`), also after a file
was given another name (`read_of_rename_other`).
-/

namespace FlatQuery.Files

variable {fs fs' fs'' : Files} {place : Place} {p : Path}

/-- That whatever stood somewhere stands there still. -/
structure Grown (fs fs' : Files) : Prop where
  current : fs'.current = fs.current
  node : ∀ place node, fs.node? place = some node → fs'.node? place = some node

namespace Grown

theorem refl (fs : Files) : Grown fs fs :=
  ⟨rfl, fun _ _ h => h⟩

theorem trans (h : Grown fs fs') (h' : Grown fs' fs'') : Grown fs fs'' :=
  ⟨h'.current.trans h.current, fun place node hnode => h'.node place node (h.node place node hnode)⟩

theorem put (h : fs.node? place = none) (node : Node) : Grown fs (fs.put place node) := by
  refine ⟨rfl, fun other found hfound => ?_⟩
  have hne : other ≠ place := by
    rintro rfl
    rw [h] at hfound
    cases hfound
  rw [node?_put_of_ne hne]
  exact hfound

theorem setContent (fs : Files) (id : Nat) (c : Content) : Grown fs (fs.setContent id c) :=
  ⟨rfl, fun _ _ h => h⟩

theorem follow_eq_ok (h : Grown fs fs') {steps : List String} {end_ : Place}
    (hfollow : fs.follow place steps = .ok end_) : fs'.follow place steps = .ok end_ := by
  induction steps generalizing place with
  | nil => exact hfollow
  | cons step rest ih =>
    obtain ⟨hnode, hrest⟩ := follow_cons_eq_ok_iff.mp hfollow
    exact follow_cons_eq_ok_iff.mpr ⟨h.node place _ hnode, ih hrest⟩

theorem place_eq_ok (h : Grown fs fs') (hplace : fs.place p = .ok place) :
    fs'.place p = .ok place := by
  obtain ⟨htext, hfollow⟩ := place_eq_ok_iff.mp hplace
  have hstart : fs'.start p = fs.start p := by
    rw [start, start, h.current]
  refine place_eq_ok_iff.mpr ⟨htext, ?_⟩
  rw [hstart]
  exact h.follow_eq_ok hfollow

theorem find_eq_ok (h : Grown fs fs') {node : Node} (hfind : fs.find p = .ok node) :
    fs'.find p = .ok node := by
  obtain ⟨place, hplace, hnode, hp⟩ := find_eq_ok_iff.mp hfind
  exact find_eq_ok_iff.mpr ⟨place, h.place_eq_ok hplace, h.node place node hnode, hp⟩

end Grown

/-! ### Making directories -/

theorem Made.grown {steps : List String} (h : Made fs fs' place steps) : Grown fs fs' := by
  refine ⟨h.current, fun other node hnode => ?_⟩
  rcases h.node other with hsame | ⟨hfree, -⟩
  · exact hsame.trans hnode
  · rw [hfree] at hnode
    cases hnode

/-! ### Writing -/

theorem content_setContent_of_ne {id other : Nat} (h : other ≠ id) (fs : Files) (c : Content) :
    (fs.setContent id c).content other = fs.content other := by
  simp only [content, Files.setContent, List.getD_eq_getElem?_getD, List.getElem?_set_ne h.symm]

theorem content_addFile_of_lt {id : Nat} (h : id < fs.contents.length) (place : Place)
    (c : Content) : (fs.addFile place c).content id = fs.content id := by
  simp only [content, addFile, Files.put, List.getD_eq_getElem?_getD, List.getElem?_append_left h]

/-- Writing a file removes nothing, and the file is found under its path. -/
theorem grown_of_write {c : Content} (h : fs.write p c = .ok fs') :
    Grown fs fs' ∧ ∃ id, fs'.find p = .ok (.file id) := by
  have htree := sameTree_of_write h
  obtain ⟨place, hplace, hp, ⟨id, hnode, rfl⟩ | ⟨hnode, rfl⟩⟩ := write_eq_ok_iff.mp h
  · refine ⟨.setContent fs id c, id, find_eq_file_iff.mpr ⟨place, ?_, hnode, hp⟩⟩
    exact htree.place_eq_ok_iff.mpr hplace
  · have hput := Grown.put hnode (.file fs.contents.length)
    have hfree : fs.node? place ≠ some .directory := by
      rw [hnode]
      exact fun h => nomatch h
    have hne : place ≠ [] := ne_nil_of_node? hfree
    refine ⟨⟨hput.current, hput.node⟩, fs.contents.length, find_eq_file_iff.mpr ⟨place, ?_, ?_, hp⟩⟩
    · exact htree.place_eq_ok_iff.mpr hplace
    · exact node?_put hne fs _

theorem content_of_write {c : Content} {id other : Nat} (hs : fs.Sound) (h : fs.write p c = .ok fs')
    (hid : fs'.find p = .ok (.file id)) (hother : ∃ place, fs.node? place = some (.file other))
    (hne : other ≠ id) : fs'.content other = fs.content other := by
  have htree := sameTree_of_write h
  obtain ⟨place', hplace', hnode', -⟩ := find_eq_file_iff.mp hid
  obtain ⟨place, hplace, -, ⟨id', hnode, rfl⟩ | ⟨-, rfl⟩⟩ := write_eq_ok_iff.mp h
  · obtain rfl : place = place' := by
      rw [htree.place_eq_ok_iff, hplace] at hplace'
      exact Except.ok.inj hplace'
    obtain rfl : id' = id := by
      have hsame : fs.node? place = some (.file id) := hnode'
      rw [hnode] at hsame
      cases hsame
      rfl
    exact content_setContent_of_ne hne fs c
  · obtain ⟨place, hplace⟩ := hother
    exact content_addFile_of_lt (hs place other hplace) _ c

section Others

variable {q source target : Path} {c : Content}

theorem Made.read {steps : List String} (h : Made fs fs' place steps) (hread : fs.read q = .ok c) :
    fs'.read q = .ok c := by
  obtain ⟨place, id, hplace, hnode, hq, hcontent⟩ := read_eq_ok_iff.mp hread
  refine read_eq_ok_iff.mpr
    ⟨place, id, h.grown.place_eq_ok hplace, h.grown.node place _ hnode, hq, ?_⟩
  rw [content, h.contents]
  exact hcontent

/-- A file that is written does not get the number of another one. -/
theorem ne_of_write {d : Content} {id other : Nat} (hs : fs.Sound) (h : fs.write p d = .ok fs')
    (hid : fs'.find p = .ok (.file id)) (hother : fs.find q = .ok (.file other))
    (hne : fs.find q ≠ fs.find p) : other ≠ id := by
  rintro rfl
  obtain ⟨place', hplace', hnode', -⟩ := find_eq_file_iff.mp hid
  obtain ⟨place, hplace, hp, hfs'⟩ := write_eq_ok_iff.mp h
  rw [(sameTree_of_write h).place_eq_ok_iff, hplace] at hplace'
  obtain rfl := Except.ok.inj hplace'
  rcases hfs' with ⟨old, -, rfl⟩ | ⟨hfree, rfl⟩
  · exact hne (hother.trans (find_eq_file_iff.mpr ⟨place, hplace, hnode', hp⟩).symm)
  · -- a new file has a number of its own
    have hdirectory : fs.node? place ≠ some .directory := by simp [hfree]
    have hadded : (fs.put place (.file fs.contents.length)).node? place = some (.file other) := hnode'
    rw [node?_put (ne_nil_of_node? hdirectory)] at hadded
    cases hadded
    obtain ⟨placeq, -, hnodeq, -⟩ := find_eq_file_iff.mp hother
    exact Nat.lt_irrefl _ (hs placeq _ hnodeq)

theorem read_of_write_other {d : Content} (hs : fs.Sound) (hne : fs.find q ≠ fs.find p)
    (hread : fs.read q = .ok c) (h : fs.write p d = .ok fs') :
    fs'.read q = .ok c ∧ fs'.find q ≠ fs'.find p := by
  obtain ⟨hgrown, written, hwritten⟩ := grown_of_write h
  obtain ⟨place, id, hplace, hnode, hq, hcontent⟩ := read_eq_ok_iff.mp hread
  have hfind : fs.find q = .ok (.file id) := find_eq_file_iff.mpr ⟨place, hplace, hnode, hq⟩
  have hid : id ≠ written := ne_of_write hs h hwritten hfind hne
  have hcontent' := content_of_write hs h hwritten ⟨place, hnode⟩ hid
  refine ⟨read_eq_ok_iff.mpr ⟨place, id, hgrown.place_eq_ok hplace, hgrown.node place _ hnode, hq,
    hcontent'.trans hcontent⟩, ?_⟩
  rw [hgrown.find_eq_ok hfind, hwritten]
  rintro ⟨⟩
  exact hid rfl

/-- Moving a file leaves a file that is neither moved nor replaced as it is, and neither of both. -/
theorem read_of_rename_other (hplaces : fs.place q ≠ fs.place target)
    (hne : fs.find q ≠ fs.find source) (hread : fs.read q = .ok c)
    (h : fs.rename source target = .ok fs') :
    fs'.read q = .ok c ∧ fs'.place q ≠ fs'.place target ∧ fs'.find q ≠ fs'.find source := by
  have htree := sameTree_of_rename h
  obtain ⟨old, moved, new, hold, hmoved, hsource, hnew, -, -, rfl⟩ := rename_eq_ok_iff.mp h
  obtain ⟨place, id, hplace, hnode, hq, hcontent⟩ := read_eq_ok_iff.mp hread
  rw [find_eq_file_iff.mpr ⟨place, hplace, hnode, hq⟩,
    find_eq_file_iff.mpr ⟨old, hold, hmoved, hsource⟩] at hne
  rw [hplace, hnew] at hplaces
  have hid : id ≠ moved := fun heq => hne (by rw [heq])
  have hplaceOld : place ≠ old := by
    rintro rfl
    rw [hnode] at hmoved
    cases hmoved
    exact hid rfl
  have hplaceNew : place ≠ new := fun heq => hplaces (by rw [heq])
  have hplace' := htree.place_eq_ok_iff.mpr hplace
  have hnode' : (fs.move old new moved).node? place = some (.file id) :=
    (node?_move_of_ne hplaceOld hplaceNew).trans hnode
  refine ⟨read_eq_ok_iff.mpr ⟨place, id, hplace', hnode', hq, (content_move id).trans hcontent⟩,
    ?_, ?_⟩
  · rw [hplace', htree.place_eq_ok_iff.mpr hnew]
    rintro ⟨⟩
    exact hplaceNew rfl
  · rw [find_eq_file_iff.mpr ⟨place, hplace', hnode', hq⟩]
    intro hfind
    obtain ⟨old', hold', hnodeOld, -⟩ := find_eq_file_iff.mp hfind.symm
    rw [htree.place_eq_ok_iff, hold] at hold'
    obtain rfl := Except.ok.inj hold'
    exact hid (eq_of_node?_move hmoved hnodeOld)

end Others

end FlatQuery.Files
