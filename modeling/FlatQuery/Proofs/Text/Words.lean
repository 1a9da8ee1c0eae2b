import FlatQuery.Text.Blank
import FlatQuery.Proofs.Text.Pieces
import Mathlib.Data.List.TakeWhile

/-!
# Words and lines

The words of a text are told by how they are laid out in it, with blanks around them and between
neighbours (`Spread`, `words_eq_iff`).  A carriage return at the end of a line changes neither its words
(`wordsOf_dropReturn`) nor its first character that is not blank (`find?_dropReturn`), so where only
these matter the lines of a text are its pieces at the line feeds (`lines_eq`).
-/

namespace FlatQuery.Text

variable {word : String} {ws : List String} {cs ds : List Char} {c : Char}

/-! ### Words -/

/-- Words laid out in a text: blanks may stand around them, and between neighbours one must. -/
inductive Spread : List String → List Char → Prop
  | nil {blanks : List Char} (hblanks : ∀ c ∈ blanks, isBlank c = true) : Spread [] blanks
  | cons (blanks : List Char) {word : String} {ws : List String} {rest : List Char}
    (hblanks : ∀ c ∈ blanks, isBlank c = true) (hne : word ≠ "")
    (hword : ∀ c ∈ word.toList, isBlank c = false) (hgap : ∀ c ∈ rest.head?, isBlank c = true)
    (hrest : Spread ws rest) : Spread (word :: ws) (blanks ++ word.toList ++ rest)

def wordsOf (cs : List Char) : List String :=
  ((cs.splitOnP isBlank).filter (!·.isEmpty)).map String.ofList

theorem words_eq_wordsOf (s : String) : words s = wordsOf s.toList := rfl

theorem wordsOf_append_blank_cons (cs : List Char) (hc : isBlank c = true) (ds : List Char) :
    wordsOf (cs ++ c :: ds) = wordsOf cs ++ wordsOf ds := by
  rw [wordsOf, List.splitOnP_append_cons cs ds hc, List.filter_append, List.map_append]
  rfl

theorem wordsOf_of_blank (h : ∀ c ∈ cs, isBlank c = true) : wordsOf cs = [] := by
  induction cs with
  | nil => rfl
  | cons c cs ih =>
    obtain ⟨hc, hcs⟩ := List.forall_mem_cons.mp h
    exact (wordsOf_append_blank_cons [] hc cs).trans (ih hcs)

theorem wordsOf_blank_append (h : ∀ c ∈ cs, isBlank c = true) (ds : List Char) :
    wordsOf (cs ++ ds) = wordsOf ds := by
  induction cs with
  | nil => rfl
  | cons c cs ih =>
    obtain ⟨hc, hcs⟩ := List.forall_mem_cons.mp h
    exact (wordsOf_append_blank_cons [] hc (cs ++ ds)).trans (ih hcs)

theorem wordsOf_word (hne : word ≠ "") (hword : ∀ c ∈ word.toList, isBlank c = false) :
    wordsOf word.toList = [word] := by
  have hlist : word.toList ≠ [] := fun h => hne (String.toList_eq_nil_iff.mp h)
  rw [wordsOf, List.splitOnP_eq_singleton hword, List.filter_cons_of_pos (by simpa using hlist)]
  exact congrArg ([·]) String.ofList_toList

theorem Spread.wordsOf_eq (h : Spread ws cs) : wordsOf cs = ws := by
  induction h with
  | nil hblanks => exact wordsOf_of_blank hblanks
  | @cons _ _ _ rest hblanks hne hword hgap _ ih =>
    rw [List.append_assoc, wordsOf_blank_append hblanks]
    cases rest with
    | nil =>
      rw [List.append_nil, wordsOf_word hne hword, ← ih]
      rfl
    | cons c rest =>
      have hc : isBlank c = true := hgap c rfl
      have hrest : wordsOf (c :: rest) = wordsOf rest := wordsOf_append_blank_cons [] hc rest
      rw [wordsOf_append_blank_cons _ hc, wordsOf_word hne hword, ← hrest, ih]
      rfl

theorem Spread.blank_cons (hc : isBlank c = true) (h : Spread ws cs) : Spread ws (c :: cs) := by
  cases h with
  | nil hblanks => exact .nil (List.forall_mem_cons.mpr ⟨hc, hblanks⟩)
  | cons blanks hblanks hne hword hgap hrest =>
    exact .cons (c :: blanks) (List.forall_mem_cons.mpr ⟨hc, hblanks⟩) hne hword hgap hrest

/-- A character before a text that is blank or starts with a blank is a word of its own. -/
theorem Spread.visible_cons (hc : isBlank c = false) (hgap : ∀ d ∈ cs.head?, isBlank d = true)
    (h : Spread ws cs) : Spread (String.ofList [c] :: ws) (c :: cs) := by
  have hword : ∀ d ∈ (String.ofList [c]).toList, isBlank d = false := by
    rw [String.toList_ofList]
    exact List.forall_mem_singleton.mpr hc
  have hspread := Spread.cons [] (fun d hd => nomatch hd) (by simp) hword hgap h
  rwa [String.toList_ofList] at hspread

/-- Where a text does not start with a blank, it starts with its first word; a character before it
belongs to that word. -/
theorem Spread.visible_cons_cons {d : Char} (hc : isBlank c = false) (hd : isBlank d = false)
    (h : Spread ws (d :: cs)) : ∃ ws', Spread ws' (c :: d :: cs) := by
  generalize htext : d :: cs = text at h
  cases h with
  | nil hblanks =>
    have hblank : isBlank d = true := hblanks d (htext ▸ List.mem_cons_self ..)
    rw [hd] at hblank
    cases hblank
  | @cons blanks word ws rest hblanks hne hword hgap hrest =>
    cases blanks with
    | cons b blanks =>
      have hblank : isBlank b = true := hblanks b (List.mem_cons_self ..)
      have hhead : d = b := (List.cons.inj htext).1
      rw [← hhead, hd] at hblank
      cases hblank
    | nil =>
      have hword' : ∀ e ∈ (String.ofList (c :: word.toList)).toList, isBlank e = false := by
        rw [String.toList_ofList]
        exact List.forall_mem_cons.mpr ⟨hc, hword⟩
      have hspread := Spread.cons [] (fun e he => nomatch he) (by simp) hword' hgap hrest
      rw [String.toList_ofList] at hspread
      exact ⟨_, hspread⟩

theorem Spread.visible (h : Spread ws cs) :
    ∀ word ∈ ws, word ≠ "" ∧ ∀ c ∈ word.toList, isBlank c = false := by
  induction h with
  | nil => exact fun word hword => nomatch hword
  | cons blanks _ hne hword _ _ ih => exact List.forall_mem_cons.mpr ⟨⟨hne, hword⟩, ih⟩

theorem exists_spread (cs : List Char) : ∃ ws, Spread ws cs := by
  induction cs with
  | nil => exact ⟨[], .nil fun c hc => nomatch hc⟩
  | cons c cs ih =>
    obtain ⟨ws, hws⟩ := ih
    cases hc : isBlank c with
    | true => exact ⟨ws, hws.blank_cons hc⟩
    | false =>
      cases cs with
      | nil => exact ⟨_, hws.visible_cons hc fun d hd => nomatch hd⟩
      | cons d cs =>
        cases hd : isBlank d with
        | true => exact ⟨_, hws.visible_cons hc (by simpa using hd)⟩
        | false => exact hws.visible_cons_cons hc hd

/-- **Words.**  The words of a text are those laid out in it. -/
theorem words_eq_iff {s : String} : words s = ws ↔ Spread ws s.toList := by
  rw [words_eq_wordsOf]
  constructor
  · intro h
    obtain ⟨ws', hws'⟩ := exists_spread s.toList
    rw [← h, hws'.wordsOf_eq]
    exact hws'
  · exact Spread.wordsOf_eq

/-! ### The first character that is not blank -/

/-- The first character of a text that is not blank. -/
def firstVisible? (s : String) : Option Char :=
  s.toList.find? fun c => !isBlank c

theorem find?_visible_of_blank (h : ∀ c ∈ cs, isBlank c = true) :
    (cs.find? fun c => !isBlank c) = none := by
  rw [List.find?_eq_none]
  intro c hc
  simp [h c hc]

theorem Spread.find?_visible (h : Spread (word :: ws) cs) :
    (cs.find? fun c => !isBlank c) = word.toList.head? := by
  cases h with
  | cons blanks hblanks hne hword hgap hrest =>
    obtain ⟨c, rest, hc⟩ := List.exists_cons_of_ne_nil fun h => hne (String.toList_eq_nil_iff.mp h)
    have hvisible : (!isBlank c) = true := by
      rw [hword c (hc ▸ List.mem_cons_self ..)]
      rfl
    rw [List.append_assoc, List.find?_append, find?_visible_of_blank hblanks, Option.none_or, hc,
      List.cons_append]
    exact List.find?_cons_of_pos hvisible

/-- Trimming keeps the first character that is not blank, and nothing before it. -/
theorem head?_trimChars (cs : List Char) :
    (trimChars cs).head? = cs.find? fun c => !isBlank c := by
  rw [List.find?_not_eq_head?_dropWhile, trimChars]
  have hvisible := List.head?_dropWhile_not isBlank cs
  cases hdrop : cs.dropWhile isBlank with
  | nil => rfl
  | cons c rest =>
    rw [hdrop] at hvisible
    have hc : isBlank c = false := hvisible
    have hcons : dropEndWhile isBlank (c :: rest) =
        if (dropEndWhile isBlank rest).isEmpty && isBlank c then []
        else c :: dropEndWhile isBlank rest := rfl
    rw [hcons, hc, Bool.and_false, if_neg Bool.false_ne_true]
    rfl

theorem head?_trim (s : String) : (trim s).toList.head? = firstVisible? s := by
  rw [trim, String.toList_ofList]
  exact head?_trimChars s.toList

/-! ### Lines -/

/-- The return that is dropped from the end of a line was its last character. -/
theorem dropReturn_cases (cs : List Char) : dropReturn cs = cs ∨ cs = dropReturn cs ++ ['\r'] := by
  unfold dropReturn
  split
  · next front hfront =>
    right
    rw [← List.reverse_reverse cs, hfront, List.reverse_cons]
  · exact .inl rfl

theorem wordsOf_dropReturn (cs : List Char) : wordsOf (dropReturn cs) = wordsOf cs := by
  have hblank : isBlank '\r' = true := by decide
  rcases dropReturn_cases cs with h | h
  · rw [h]
  · have happend := wordsOf_append_blank_cons (dropReturn cs) hblank []
    rw [← h] at happend
    exact happend.symm ▸ (List.append_nil _).symm

theorem find?_dropReturn (cs : List Char) :
    ((dropReturn cs).find? fun c => !isBlank c) = cs.find? fun c => !isBlank c := by
  rcases dropReturn_cases cs with h | h
  · rw [h]
  · have hblank : (['\r'].find? fun c => !isBlank c) = none := by decide
    have happend : ((dropReturn cs ++ ['\r']).find? fun c => !isBlank c) =
        (dropReturn cs).find? fun c => !isBlank c := by
      rw [List.find?_append, hblank, Option.or_none]
    rw [← h] at happend
    exact happend.symm

/-- The lines of a text are its pieces at the line feeds, but without the returns before these and
without a last piece that is empty. -/
theorem lines_eq (s : String) : ∃ front last, s.toList.splitOn '\n' = front ++ [last] ∧
    lines s = (front.map dropReturn ++ if last = [] then [] else [last]).map String.ofList := by
  obtain ⟨front, last, hpieces⟩ := exists_splitOn_eq '\n' s.toList
  refine ⟨front, last, hpieces, ?_⟩
  simp only [lines, hpieces, List.dropLast_concat, List.getLast?_concat, Option.getD_some]
  cases last with
  | nil => simp
  | cons c last => simp

end FlatQuery.Text
