import FlatQuery.Files.Path
import FlatQuery.Proofs.Text.Pieces

/-!
# Paths of files in a directory

The path of a plainly named file as seen from a directory: its steps are those of the directory and
then the name (`walk_join`), it starts where the path of the directory starts (`isAbsolute_join`),
and it can be the path of a file (`asksDirectory_join`).  A path that is extended by a text starts in
the same place too, and only its last step differs, or it leads one step further (`walk_extend`).
-/

namespace FlatQuery.Path

/-- A text that stands for itself as a step of a path. -/
structure IsName (s : String) : Prop where
  ne_empty : s ≠ ""
  ne_dot : s ≠ "."
  ne_dots : s ≠ ".."
  no_slash : '/' ∉ s.toList
  no_dot : s.toList.getLast? ≠ some '.'

variable {p : Path} {name : String}

def body (p : Path) : List String :=
  (Text.piecesAt '/' p.text).filter fun s => !s.isEmpty && s != "."

theorem walk_eq (p : Path) :
    p.walk = if p.isAbsolute then p.body
      else if (Text.piecesAt '/' p.text).head? == some "." then "." :: p.body else p.body := by
  by_cases h : p.isAbsolute = true
  · simp only [walk, steps, h, if_true, List.drop_succ_cons, List.drop_zero, body]
  · simp only [walk, steps, h, Bool.false_eq_true, if_false, body]

theorem IsName.not_isAbsolute (h : IsName name) : isAbsolute ⟨name⟩ = false := by
  rw [isAbsolute, beq_eq_false_iff_ne]
  intro hhead
  exact h.no_slash (List.mem_of_mem_head? hhead)

theorem toList_ne_nil {s : String} (hs : s ≠ "") : s.toList ≠ [] := by
  intro h
  exact hs (String.toList_eq_nil_iff.mp h)

/-- A joined path is the path of the directory, a slash and the name, but no slash is added to one
that is there. -/
theorem toList_join (h : IsName name) (hp : p.text ≠ "") : ∃ cs,
    (p.text.toList = cs ∨ p.text.toList = cs ++ ['/']) ∧
      (p.join ⟨name⟩).text.toList = cs ++ '/' :: name.toList := by
  have hempty : p.text.isEmpty = false := by simpa using hp
  simp only [join, h.not_isAbsolute, hempty, Bool.or_self, Bool.false_eq_true, if_false]
  by_cases hlast : (p.text.toList.getLast? == some '/') = true
  · rw [if_pos hlast]
    obtain ⟨cs, hcs⟩ := List.getLast?_eq_some_iff.mp (beq_iff_eq.mp hlast)
    refine ⟨cs, .inr hcs, ?_⟩
    rw [String.toList_append, hcs, List.append_assoc, List.singleton_append]
  · rw [if_neg hlast]
    refine ⟨p.text.toList, .inl rfl, ?_⟩
    rw [String.toList_append, String.toList_append, List.append_assoc]
    rfl

theorem piecesAt_of_toList {cs ds : List Char} {s : String} (h : s.toList = cs ++ '/' :: ds) :
    Text.piecesAt '/' s = (cs.splitOn '/' ++ ds.splitOn '/').map String.ofList := by
  rw [Text.piecesAt, h, List.splitOn_append_cons_self]

theorem IsName.pieces (h : IsName name) : (name.toList.splitOn '/').map String.ofList = [name] := by
  rw [List.splitOn_eq_singleton h.no_slash, List.map_singleton, String.ofList_toList]

theorem piecesAt_join (h : IsName name) (hp : p.text ≠ "") : ∃ first rest,
    Text.piecesAt '/' (p.join ⟨name⟩).text = first :: rest ++ [name] ∧
      (Text.piecesAt '/' p.text = first :: rest ∨ Text.piecesAt '/' p.text = first :: rest ++ [""]) := by
  obtain ⟨cs, hcs, hjoin⟩ := toList_join h hp
  have hpieces := piecesAt_of_toList hjoin
  rw [List.map_append, h.pieces] at hpieces
  cases hsplit : (cs.splitOn '/').map String.ofList with
  | nil =>
    rw [List.map_eq_nil_iff] at hsplit
    exact (List.splitOn_ne_nil _ _ hsplit).elim
  | cons first rest =>
    rw [hsplit] at hpieces
    refine ⟨first, rest, hpieces, ?_⟩
    rcases hcs with hcs | hcs
    · left
      rw [Text.piecesAt, hcs, hsplit]
    · right
      rw [piecesAt_of_toList hcs, List.map_append, hsplit]
      rfl

theorem isAbsolute_join (h : IsName name) (hp : p.text ≠ "") :
    (p.join ⟨name⟩).isAbsolute = p.isAbsolute := by
  obtain ⟨cs, hcs, hjoin⟩ := toList_join h hp
  rw [isAbsolute, isAbsolute, hjoin]
  rcases hcs with hcs | hcs
  · cases cs with
    | nil => exact absurd hcs (toList_ne_nil hp)
    | cons c cs =>
      rw [hcs]
      rfl
  · rw [hcs]
    cases cs with
    | nil => rfl
    | cons c cs => rfl

/-- **Below a directory.**  The steps to a file in a directory lead to the directory first. -/
theorem walk_join (h : IsName name) (hp : p.text ≠ "") :
    (p.join ⟨name⟩).walk = p.walk ++ [name] := by
  obtain ⟨first, rest, hjoin, hdirectory⟩ := piecesAt_join h hp
  have hname : [name].filter (fun s => !s.isEmpty && s != ".") = [name] := by
    simp [h.ne_empty, h.ne_dot]
  have hbody : (p.join ⟨name⟩).body = p.body ++ [name] := by
    rw [body, body, hjoin]
    rcases hdirectory with hdirectory | hdirectory
    · rw [hdirectory, List.filter_append, hname]
    · rw [hdirectory, List.filter_append, List.filter_append, hname, List.append_assoc]
      rfl
  have hhead : (Text.piecesAt '/' (p.join ⟨name⟩).text).head? = (Text.piecesAt '/' p.text).head? := by
    rw [hjoin]
    rcases hdirectory with hdirectory | hdirectory
    · rw [hdirectory]
      rfl
    · rw [hdirectory]
      rfl
  rw [walk_eq, walk_eq, isAbsolute_join h hp, hbody, hhead]
  split
  · rfl
  · split
    · rfl
    · rfl

theorem join_of_empty (hp : p.text = "") (q : Path) : p.join q = q := by
  rw [join, hp]
  simp

theorem asksDirectory_join (h : IsName name) (p : Path) :
    (p.join ⟨name⟩).asksDirectory = false := by
  have hreverse : ∃ cs, (p.join ⟨name⟩).text.toList.reverse = name.toList.reverse ++ cs := by
    by_cases hp : p.text = ""
    · exact ⟨[], by rw [join_of_empty hp, List.append_nil]⟩
    · obtain ⟨cs, -, hjoin⟩ := toList_join h hp
      exact ⟨'/' :: cs.reverse, by rw [hjoin, List.reverse_append, List.reverse_cons,
        List.append_assoc, List.singleton_append]⟩
  obtain ⟨cs, hcs⟩ := hreverse
  cases hlast : name.toList.reverse with
  | nil =>
    rw [List.reverse_eq_nil_iff] at hlast
    exact absurd (String.toList_eq_nil_iff.mp hlast) h.ne_empty
  | cons c rest =>
    have hmem : c ∈ name.toList := by
      rw [← List.mem_reverse, hlast]
      exact List.mem_cons_self ..
    have hslash : c ≠ '/' := by
      rintro rfl
      exact h.no_slash hmem
    have hdot : c ≠ '.' := by
      rintro rfl
      refine h.no_dot ?_
      rw [← List.head?_reverse, hlast]
      rfl
    rw [asksDirectory, hcs, hlast, List.cons_append]
    split
    · next heq => exact absurd (List.cons.inj heq).1 hslash
    · next heq => exact absurd (List.cons.inj heq).1 hdot
    · next heq => exact absurd (List.cons.inj heq).1 hdot
    · rfl

/-! ### Names that are continued -/

/-- Behind a name at the end of a path, a text continues that name. -/
theorem extend_of_pieces {front : List String} {last : String}
    (hpieces : Text.piecesAt '/' p.text = front ++ [last]) (hempty : last ≠ "") (hdot : last ≠ ".")
    (hdots : last ≠ "..") (suffix : String) : p.extend suffix = ⟨p.text ++ suffix⟩ := by
  have hnamed : (last.isEmpty || last == ".") = false := by simp [hempty, hdot]
  have hjoined : Text.joined "/" (front ++ [last]) = p.text := by
    rw [← hpieces]
    exact Text.joined_piecesAt '/' p.text
  rw [extend, hpieces, List.reverse_append, List.reverse_singleton, List.singleton_append]
  simp only [List.dropWhile_cons, hnamed, Bool.false_eq_true, if_false, if_neg hdots,
    List.reverse_reverse]
  rw [Text.joined_concat_append, hjoined]

theorem extend_join (h : IsName name) (p : Path) {suffix : String} (hsuffix : IsName (name ++ suffix)) :
    (p.join ⟨name⟩).extend suffix = p.join ⟨name ++ suffix⟩ := by
  have hpieces : ∃ front, Text.piecesAt '/' (p.join ⟨name⟩).text = front ++ [name] := by
    by_cases hp : p.text = ""
    · rw [join_of_empty hp]
      exact ⟨[], h.pieces⟩
    · obtain ⟨first, rest, hjoin, -⟩ := piecesAt_join h hp
      exact ⟨first :: rest, hjoin⟩
  obtain ⟨front, hfront⟩ := hpieces
  rw [extend_of_pieces hfront h.ne_empty h.ne_dot h.ne_dots]
  simp only [join, h.not_isAbsolute, hsuffix.not_isAbsolute, Bool.false_or]
  split
  · rfl
  · split
    · rw [String.append_assoc]
    · rw [String.append_assoc]

theorem isAbsolute_iff :
    p.isAbsolute = true ↔ ∃ rest, rest ≠ [] ∧ Text.piecesAt '/' p.text = "" :: rest := by
  rw [isAbsolute, beq_iff_eq]
  constructor
  · intro hhead
    obtain ⟨cs, hcs⟩ := List.head?_eq_some_iff.mp hhead
    have hslash : p.text.toList = [] ++ '/' :: cs := hcs
    refine ⟨(cs.splitOn '/').map String.ofList, ?_, piecesAt_of_toList hslash⟩
    exact fun h => List.splitOn_ne_nil '/' cs (List.map_eq_nil_iff.mp h)
  · rintro ⟨rest, hne, hpieces⟩
    obtain ⟨s, rest, rfl⟩ := List.exists_cons_of_ne_nil hne
    have hjoined := Text.joined_piecesAt '/' p.text
    rw [hpieces] at hjoined
    rw [← hjoined, Text.toList_joined]
    rfl

/-- A path either ends with a name, behind which there may be slashes and dots, or a text that extends
it names something below it. -/
theorem extend_cases (p : Path) (suffix : String) :
    (∃ front last behind, Text.piecesAt '/' p.text = front ++ last :: behind ∧
      (∀ s ∈ behind, (s.isEmpty || s == ".") = true) ∧ last ≠ "" ∧ last ≠ "." ∧ last ≠ ".." ∧
      p.extend suffix = ⟨Text.joined "/" (front ++ [last ++ suffix])⟩) ∨
    p.extend suffix = p.join ⟨suffix⟩ := by
  rw [extend]
  have hcut := List.takeWhile_append_dropWhile (p := fun s : String => s.isEmpty || s == ".")
    (l := (Text.piecesAt '/' p.text).reverse)
  have hbehind : ∀ s ∈ (Text.piecesAt '/' p.text).reverse.takeWhile fun s => s.isEmpty || s == ".",
      (s.isEmpty || s == ".") = true := List.all_eq_true.mp List.all_takeWhile
  have hlast := List.head?_dropWhile_not (fun s : String => s.isEmpty || s == ".")
    (Text.piecesAt '/' p.text).reverse
  split
  · exact .inr rfl
  · next last front hfront =>
    rw [hfront] at hcut hlast
    by_cases hdots : last = ".."
    · right
      rw [if_pos hdots]
    · left
      have hnamed : last ≠ "" ∧ last ≠ "." := by simpa using hlast
      refine ⟨front.reverse, last, _, ?_, fun s hs => hbehind s (List.mem_reverse.mp hs), hnamed.1,
        hnamed.2, hdots, ?_⟩
      · have hpieces := congrArg List.reverse hcut
        rw [List.reverse_reverse, List.reverse_append, List.reverse_cons, List.append_assoc,
          List.singleton_append] at hpieces
        exact hpieces.symm
      · rw [if_neg hdots]

theorem IsName.append {front : String} (hfront : '/' ∉ front.toList) (h : IsName name) :
    IsName (front ++ name) := by
  have hlast : (front ++ name).toList.getLast? = name.toList.getLast? := by
    obtain ⟨c, hc⟩ := Option.isSome_iff_exists.mp
      (List.getLast?_isSome.mpr (toList_ne_nil h.ne_empty))
    rw [String.toList_append, List.getLast?_append, hc, Option.some_or]
  have hno_dot : (front ++ name).toList.getLast? ≠ some '.' := by
    rw [hlast]
    exact h.no_dot
  refine ⟨?_, ?_, ?_, ?_, hno_dot⟩
  · simp [h.ne_empty]
  · intro heq
    rw [heq] at hno_dot
    exact hno_dot rfl
  · intro heq
    rw [heq] at hno_dot
    exact hno_dot rfl
  · rw [String.toList_append, List.mem_append, not_or]
    exact ⟨hfront, h.no_slash⟩

/-- A path that ends with a name starts with it or with what stands before it. -/
theorem isAbsolute_of_pieces {front behind : List String} {last : String}
    (hpieces : Text.piecesAt '/' p.text = front ++ last :: behind) (hempty : last ≠ "") :
    p.isAbsolute = (front.head? == some "") := by
  rw [Bool.eq_iff_iff, isAbsolute_iff, hpieces]
  cases front with
  | nil => simp [hempty]
  | cons first front => simp

/-- The steps of a path that ends with a name, behind which there may be slashes and dots. -/
theorem walk_of_pieces {front behind : List String} {last : String}
    (hpieces : Text.piecesAt '/' p.text = front ++ last :: behind)
    (hbehind : ∀ s ∈ behind, (s.isEmpty || s == ".") = true) (hempty : last ≠ "") (hdot : last ≠ ".") :
    p.walk = (if front.head? = some "." then ["."] else []) ++
      front.filter (fun s => !s.isEmpty && s != ".") ++ [last] := by
  have hnone : behind.filter (fun s => !s.isEmpty && s != ".") = [] := by
    rw [List.filter_eq_nil_iff]
    intro s hs
    have hs' := hbehind s hs
    simp only [Bool.or_eq_true, beq_iff_eq] at hs'
    rcases hs' with hs' | hs'
    · simp [hs']
    · simp [hs']
  have hbody : p.body = front.filter (fun s => !s.isEmpty && s != ".") ++ [last] := by
    rw [body, hpieces, List.filter_append, List.filter_cons_of_pos (by simp [hempty, hdot]), hnone]
  rw [walk_eq, isAbsolute_of_pieces hpieces hempty, hpieces, hbody]
  cases front with
  | nil => simp [hdot]
  | cons first front =>
    by_cases hroot : first = ""
    · simp [hroot]
    · by_cases hfirst : first = "."
      · simp [hfirst]
      · simp [hroot, hfirst]

/-- The steps to a name in a directory, whose path may be empty as well. -/
theorem walk_join_name (h : IsName name) (p : Path) :
    (p.join ⟨name⟩).isAbsolute = p.isAbsolute ∧ (p.join ⟨name⟩).walk = p.walk ++ [name] := by
  by_cases hp : p.text = ""
  · have hnone : p = ⟨""⟩ := congrArg Path.mk hp
    have hpieces : Text.piecesAt '/' name = [] ++ name :: [] := h.pieces
    rw [join_of_empty hp, h.not_isAbsolute, hnone]
    exact ⟨rfl, walk_of_pieces hpieces (fun s hs => nomatch hs) h.ne_empty h.ne_dot⟩
  · exact ⟨isAbsolute_join h hp, walk_join h hp⟩

/-- **Beside a path.**  A path that is extended starts where the path starts, and its steps differ in
the last name only, or lead one step further. -/
theorem walk_extend {suffix : String} (h : IsName suffix) (p : Path) :
    (p.extend suffix).isAbsolute = p.isAbsolute ∧
      ((∃ front last, p.walk = front ++ [last] ∧ last ≠ "." ∧ last ≠ ".." ∧
          IsName (last ++ suffix) ∧ (p.extend suffix).walk = front ++ [last ++ suffix]) ∨
        (p.extend suffix).walk = p.walk ++ [suffix]) := by
  rcases extend_cases p suffix with
    ⟨front, last, behind, hpieces, hbehind, hempty, hdot, hdots, hextend⟩ | hextend
  · have hmem : ∀ s ∈ front ++ last :: behind, '/' ∉ s.toList := by
      rw [← hpieces]
      exact fun s hs => Text.not_mem_of_mem_piecesAt hs
    have hmore : IsName (last ++ suffix) := h.append (hmem last (by simp))
    have hpieces' : Text.piecesAt '/' (p.extend suffix).text = front ++ [last ++ suffix] := by
      rw [hextend]
      refine Text.piecesAt_joined (by simp) fun s hs => ?_
      rcases List.mem_append.mp hs with hs | hs
      · exact hmem s (List.mem_append_left _ hs)
      · obtain rfl := List.mem_singleton.mp hs
        exact hmore.no_slash
    have habsolute : (p.extend suffix).isAbsolute = p.isAbsolute :=
      (isAbsolute_of_pieces hpieces' hmore.ne_empty).trans (isAbsolute_of_pieces hpieces hempty).symm
    refine ⟨habsolute, .inl ⟨_, last, walk_of_pieces hpieces hbehind hempty hdot, hdot, hdots, hmore, ?_⟩⟩
    exact walk_of_pieces hpieces' (fun s hs => nomatch hs) hmore.ne_empty hmore.ne_dot
  · rw [hextend]
    obtain ⟨habsolute, hwalk⟩ := walk_join_name h p
    exact ⟨habsolute, .inr hwalk⟩

end FlatQuery.Path
