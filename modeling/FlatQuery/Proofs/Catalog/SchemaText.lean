import FlatQuery.Catalog.Schema
import FlatQuery.Proofs.Name
import FlatQuery.Proofs.Outcome
import FlatQuery.Proofs.Text.Words

/-!
# Schema texts are read exactly

What a schema text declares is told line by line (`Schema.Declares`, `Schema.Lists`).  Reading it gives
these declarations or the number of the first line that is at fault, lines that say nothing counted, and
whatever lays out declarations in lines is read as these declarations (`Schema.parse_exact`).
-/

namespace FlatQuery.Schema

open Outcome

variable {line : String} {lines : List String} {d : Declaration} {ds : List Declaration}

/-! ### Lines -/

/-- A line that is blank, or whose first character that is not blank is a number sign. -/
def Silent (line : String) : Prop :=
  ∀ c ∈ Text.firstVisible? line, c = '#'

theorem isSilent_iff : isSilent line = true ↔ Silent line := by
  rw [isSilent, Silent, ← Text.head?_trim, Bool.or_eq_true, beq_iff_eq, String.isEmpty_iff]
  constructor
  · rintro (hempty | hsign) c hc
    · rw [hempty] at hc
      cases hc
    · rw [hsign] at hc
      exact (Option.some.inj hc).symm
  · intro h
    cases htext : (Text.trim line).toList with
    | nil => exact .inl (String.toList_eq_nil_iff.mp htext)
    | cons c rest =>
      right
      rw [htext] at h
      exact congrArg some (h c rfl)

def textColumn (word : String) : Column where
  name := Text.lowercase (Text.trim word)
  type := .text
  nullable := true

/-- A line that is not silent declares a table by its first word and columns by the others, of which
there is one at least. -/
def Declares (line : String) (d : Declaration) : Prop :=
  ¬ Silent line ∧ ∃ name column rest, Text.Spread (name :: column :: rest) line.toList ∧
    d = { name, columns := (column :: rest).map textColumn }

/-- The declarations on the lines that are not silent, in order. -/
inductive Lists : List String → List Declaration → Prop
  | nil : Lists [] []
  | silent {line : String} {lines : List String} {ds : List Declaration} (h : Silent line)
    (hrest : Lists lines ds) : Lists (line :: lines) ds
  | declares {line : String} {lines : List String} {d : Declaration} {ds : List Declaration}
    (h : Declares line d) (hrest : Lists lines ds) : Lists (line :: lines) (d :: ds)

/-- A line that says nothing, or has a name and a column. -/
def Fine (line : String) : Prop :=
  Silent line ∨ 2 ≤ (Text.words line).length

theorem Declares.fine (h : Declares line d) : Fine line := by
  obtain ⟨-, name, column, rest, hspread, -⟩ := h
  right
  rw [Text.words_eq_iff.mpr hspread, List.length_cons, List.length_cons]
  omega

theorem line_cases (line : String) :
    Silent line ∨ (∃ d, Declares line d) ∨ ¬ Silent line ∧ ∃ name, Text.words line = [name] := by
  by_cases hsilent : Silent line
  · exact .inl hsilent
  · obtain ⟨ws, hspread⟩ := Text.exists_spread line.toList
    right
    match ws, hspread with
    | [], .nil hblanks =>
      -- a blank line is silent
      refine absurd ?_ hsilent
      intro c hc
      rw [Text.firstVisible?, Text.find?_visible_of_blank hblanks] at hc
      cases hc
    | [name], hspread => exact .inr ⟨hsilent, name, Text.words_eq_iff.mpr hspread⟩
    | name :: column :: rest, hspread =>
      exact .inl ⟨_, hsilent, name, column, rest, hspread, rfl⟩

/-! ### Reading lines -/

theorem parseLines_of_silent (h : Silent line) (n : Nat) (rest : List String) :
    parseLines n (line :: rest) = parseLines (n + 1) rest := by
  rw [parseLines, if_pos (isSilent_iff.mpr h)]

theorem parseLines_of_declares (h : Declares line d) (n : Nat) (rest : List String) :
    parseLines n (line :: rest) = (parseLines (n + 1) rest >>= fun ds => pure (d :: ds)) := by
  obtain ⟨hsilent, name, column, columns, hspread, rfl⟩ := h
  have hdeclaration : declaration? line =
      some { name, columns := (column :: columns).map textColumn } := by
    rw [declaration?, Text.words_eq_iff.mpr hspread]
    rfl
  rw [parseLines, if_neg (mt isSilent_iff.mp hsilent), hdeclaration]

theorem parseLines_of_lone {name : String} (h : ¬ Silent line) (hwords : Text.words line = [name])
    (n : Nat) (rest : List String) :
    parseLines n (line :: rest) = .error (.lineWithoutColumns n name) := by
  rw [parseLines, if_neg (mt isSilent_iff.mp h), declaration?, hwords]
  rfl

theorem parseLines_eq_ok_iff {n : Nat} : parseLines n lines = .ok ds ↔ Lists lines ds := by
  induction lines generalizing n ds with
  | nil =>
    constructor
    · intro h
      obtain rfl := Except.ok.inj h
      exact .nil
    · rintro ⟨⟩
      rfl
  | cons line rest ih =>
    -- the three kinds of lines exclude one another
    rcases line_cases line with hsilent | ⟨d, hd⟩ | ⟨hloud, name, hwords⟩
    · rw [parseLines_of_silent hsilent, ih]
      refine ⟨.silent hsilent, fun h => ?_⟩
      cases h with
      | silent _ hrest => exact hrest
      | declares hdeclares _ => exact absurd hsilent hdeclares.1
    · rw [parseLines_of_declares hd, bind_eq_ok_iff]
      constructor
      · rintro ⟨ds', hds', heq⟩
        obtain rfl := Except.ok.inj heq
        exact .declares hd (ih.mp hds')
      · intro h
        cases h with
        | silent hsilent _ => exact absurd hsilent hd.1
        | @declares _ _ d' ds' hd' hrest =>
          have heq : d' = d := by
            obtain ⟨-, name, column, columns, hspread, rfl⟩ := hd
            obtain ⟨-, name', column', columns', hspread', rfl⟩ := hd'
            have hwords := (Text.words_eq_iff.mpr hspread').symm.trans (Text.words_eq_iff.mpr hspread)
            cases hwords
            rfl
          exact ⟨ds', ih.mpr hrest, by rw [heq]; rfl⟩
    · rw [parseLines_of_lone hloud hwords]
      refine ⟨fun h => (nomatch h), fun h => ?_⟩
      cases h with
      | silent hsilent _ => exact absurd hsilent hloud
      | declares hdeclares _ =>
        obtain ⟨-, name', column, columns, hspread, -⟩ := hdeclares
        rw [Text.words_eq_iff.mpr hspread] at hwords
        cases hwords

/-- The first line that is at fault, with its number. -/
def FirstFault (n : Nat) (lines : List String) (e : Catalog.Error) : Prop :=
  ∃ before line after name, lines = before ++ line :: after ∧ (∀ l ∈ before, Fine l) ∧
    ¬ Silent line ∧ Text.words line = [name] ∧ e = .lineWithoutColumns (n + before.length) name

theorem not_fine_of_lone {name : String} (h : ¬ Silent line) (hwords : Text.words line = [name]) :
    ¬ Fine line := by
  rintro (hsilent | hlength)
  · exact h hsilent
  · rw [hwords] at hlength
    simp at hlength

/-- Behind a line that is fine, faults are counted from the next number. -/
theorem firstFault_cons_iff {n : Nat} {e : Catalog.Error} (h : Fine line) :
    FirstFault n (line :: lines) e ↔ FirstFault (n + 1) lines e := by
  constructor
  · rintro ⟨before, fault, after, name, hlines, hbefore, hloud, hwords, rfl⟩
    cases before with
    | nil =>
      obtain rfl := (List.cons.inj hlines).1
      exact absurd h (not_fine_of_lone hloud hwords)
    | cons first before =>
      obtain ⟨rfl, rfl⟩ := List.cons.inj hlines
      refine ⟨before, fault, after, name, rfl, (List.forall_mem_cons.mp hbefore).2, hloud, hwords, ?_⟩
      rw [List.length_cons]
      congr 1
      omega
  · rintro ⟨before, fault, after, name, rfl, hbefore, hloud, hwords, rfl⟩
    refine ⟨line :: before, fault, after, name, rfl, List.forall_mem_cons.mpr ⟨h, hbefore⟩, hloud,
      hwords, ?_⟩
    rw [List.length_cons]
    congr 1
    omega

theorem parseLines_eq_error_iff {n : Nat} {e : Catalog.Error} :
    parseLines n lines = .error e ↔ FirstFault n lines e := by
  induction lines generalizing n with
  | nil =>
    refine ⟨fun h => (nomatch h), ?_⟩
    rintro ⟨before, fault, after, name, hlines, -⟩
    simp at hlines
  | cons line rest ih =>
    rcases line_cases line with hsilent | ⟨d, hd⟩ | ⟨hloud, name, hwords⟩
    · rw [parseLines_of_silent hsilent, ih, firstFault_cons_iff (.inl hsilent)]
    · rw [parseLines_of_declares hd, bind_eq_error_iff, ih, firstFault_cons_iff hd.fine]
      refine ⟨fun h => ?_, .inl⟩
      rcases h with h | ⟨ds, -, h⟩
      · exact h
      · cases h
    · rw [parseLines_of_lone hloud hwords]
      constructor
      · intro h
        obtain rfl := Except.error.inj h
        exact ⟨[], line, rest, name, rfl, fun l hl => (nomatch hl), hloud, hwords, rfl⟩
      · rintro ⟨before, fault, after, name', hlines, hbefore, -, hwords', rfl⟩
        cases before with
        | nil =>
          obtain rfl := (List.cons.inj hlines).1
          rw [hwords] at hwords'
          cases hwords'
          rfl
        | cons first before =>
          obtain rfl := (List.cons.inj hlines).1
          exact absurd (hbefore line (List.mem_cons_self ..)) (not_fine_of_lone hloud hwords)

theorem exists_parseLines_iff {n : Nat} :
    (∃ ds, parseLines n lines = .ok ds) ↔ ∀ line ∈ lines, Fine line := by
  induction lines generalizing n with
  | nil => exact iff_of_true ⟨[], rfl⟩ fun line h => nomatch h
  | cons line rest ih =>
    rw [List.forall_mem_cons]
    rcases line_cases line with hsilent | ⟨d, hd⟩ | ⟨hloud, name, hwords⟩
    · rw [parseLines_of_silent hsilent, ih]
      exact (and_iff_right (.inl hsilent)).symm
    · rw [parseLines_of_declares hd, exists_bind_pure_iff, ih]
      exact (and_iff_right hd.fine).symm
    · rw [parseLines_of_lone hloud hwords]
      refine iff_of_false ?_ fun h => not_fine_of_lone hloud hwords h.1
      rintro ⟨ds, h⟩
      cases h

/-! ### Lines of a text -/

/-- Only the words of lines and their first characters that are not blank matter. -/
theorem parseLines_congr {lines' : List String} {n : Nat}
    (h : List.Forall₂ (fun l l' => Text.words l = Text.words l' ∧
      Text.firstVisible? l = Text.firstVisible? l') lines lines') :
    parseLines n lines = parseLines n lines' := by
  induction h generalizing n with
  | nil => rfl
  | @cons l l' _ _ hline _ ih =>
    obtain ⟨hwords, hfirst⟩ := hline
    have hsilent : isSilent l = isSilent l' := by
      rw [Bool.eq_iff_iff, isSilent_iff, isSilent_iff, Silent, Silent, hfirst]
    rw [parseLines, parseLines, hsilent, declaration?, declaration?, hwords, ih]

theorem parseLines_concat_empty (n : Nat) (lines : List String) :
    parseLines n (lines ++ [""]) = parseLines n lines := by
  induction lines generalizing n with
  | nil => rfl
  | cons line rest ih =>
    rw [List.cons_append]
    rcases line_cases line with hsilent | ⟨d, hd⟩ | ⟨hloud, name, hwords⟩
    · rw [parseLines_of_silent hsilent, parseLines_of_silent hsilent, ih]
    · rw [parseLines_of_declares hd, parseLines_of_declares hd, ih]
    · rw [parseLines_of_lone hloud hwords, parseLines_of_lone hloud hwords]

/-- It comes to the same to read the pieces of a text between its line feeds. -/
theorem parse_eq_pieces (text : String) : parse text = parseLines 1 (Text.piecesAt '\n' text) := by
  obtain ⟨front, last, hpieces, hlines⟩ := Text.lines_eq text
  have hreturn : List.Forall₂ (fun l l' => Text.words l = Text.words l' ∧
      Text.firstVisible? l = Text.firstVisible? l')
      ((front.map Text.dropReturn).map String.ofList) (front.map String.ofList) := by
    rw [List.map_map, List.forall₂_map_left_iff, List.forall₂_map_right_iff, List.forall₂_same]
    intro cs _
    simp only [Function.comp_apply, Text.words_eq_wordsOf, Text.firstVisible?, String.toList_ofList]
    exact ⟨Text.wordsOf_dropReturn cs, Text.find?_dropReturn cs⟩
  rw [parse, hlines, Text.piecesAt, hpieces, List.map_append, List.map_append]
  by_cases hlast : last = []
  · subst hlast
    rw [if_pos rfl, List.map_nil, List.append_nil, parseLines_congr hreturn]
    exact (parseLines_concat_empty 1 _).symm
  · rw [if_neg hlast]
    refine parseLines_congr (List.rel_append hreturn ?_)
    exact .cons ⟨rfl, rfl⟩ .nil

/-! ### Texts that hold declarations -/

/-- A declaration that can be read back: its name does not start like a comment, and its columns are
such as a schema text declares. -/
structure Writable (d : Declaration) : Prop where
  name : d.name.toList.head? ≠ some '#'
  some_column : d.columns ≠ []
  lowercase : ∀ c ∈ d.columns, Text.lowercase c.name = c.name
  type : ∀ c ∈ d.columns, c.type = .text
  nullable : ∀ c ∈ d.columns, c.nullable = true

/-- Lines that lay out declarations, one on each, with silent lines anywhere between them. -/
inductive Renders : List String → List Declaration → Prop
  | nil : Renders [] []
  | silent {line : String} {lines : List String} {ds : List Declaration} (h : Silent line)
    (hline : '\n' ∉ line.toList) (hrest : Renders lines ds) : Renders (line :: lines) ds
  | declared {line : String} {lines : List String} {d : Declaration} {ds : List Declaration}
    (hd : Writable d) (h : Text.Spread (d.name :: d.columns.map (·.name)) line.toList)
    (hline : '\n' ∉ line.toList) (hrest : Renders lines ds) : Renders (line :: lines) (d :: ds)

/-- A column whose name is laid out as a word is read back. -/
theorem textColumn_name {c : Column} (hlower : Text.lowercase c.name = c.name) (htype : c.type = .text)
    (hnullable : c.nullable = true) (hword : ∀ x ∈ c.name.toList, Text.isBlank x = false) :
    textColumn c.name = c := by
  have htrimmed : Text.Trimmed c.name.toList :=
    ⟨fun x hx => hword x (List.mem_of_mem_head? hx), fun x hx => hword x (List.mem_of_mem_getLast? hx)⟩
  have htrim : Text.trim c.name = c.name := by
    rw [Text.trim, Text.trimChars_of_trimmed htrimmed, String.ofList_toList]
  rw [textColumn, htrim, hlower, ← htype, ← hnullable]

theorem declares_of_spread (hd : Writable d)
    (h : Text.Spread (d.name :: d.columns.map (·.name)) line.toList) : Declares line d := by
  obtain ⟨column, rest, hcolumns⟩ := List.exists_cons_of_ne_nil hd.some_column
  refine ⟨fun hsilent => ?_, d.name, column.name, rest.map (·.name), ?_, ?_⟩
  · -- the first character of the line is that of the name
    obtain ⟨c, cs, hname⟩ := List.exists_cons_of_ne_nil fun hnil =>
      (h.visible d.name (List.mem_cons_self ..)).1 (String.toList_eq_nil_iff.mp hnil)
    have hfirst : Text.firstVisible? line = some c := by
      rw [Text.firstVisible?, h.find?_visible, hname]
      rfl
    refine hd.name ?_
    rw [hname, hsilent c hfirst]
    rfl
  · rw [hcolumns] at h
    exact h
  · have hread : ∀ c ∈ d.columns, textColumn c.name = c := by
      intro c hc
      have hword := h.visible c.name (List.mem_cons_of_mem _ (List.mem_map_of_mem hc))
      exact textColumn_name (hd.lowercase c hc) (hd.type c hc) (hd.nullable c hc) hword.2
    have hmap : (d.columns.map (·.name)).map textColumn = d.columns := by
      rw [List.map_map]
      exact (List.map_congr_left hread).trans (List.map_id' _)
    obtain ⟨name, columns⟩ := d
    rw [← List.map_cons, ← hcolumns, hmap]

theorem Renders.lists (h : Renders lines ds) : Lists lines ds := by
  induction h with
  | nil => exact .nil
  | silent hsilent _ _ ih => exact .silent hsilent ih
  | declared hd hspread _ _ ih => exact .declares (declares_of_spread hd hspread) ih

theorem Renders.no_feed (h : Renders lines ds) : ∀ line ∈ lines, '\n' ∉ line.toList := by
  induction h with
  | nil => exact fun line hline => nomatch hline
  | silent _ hline _ ih => exact List.forall_mem_cons.mpr ⟨hline, ih⟩
  | declared _ _ hline _ ih => exact List.forall_mem_cons.mpr ⟨hline, ih⟩

theorem parse_of_renders (h : Renders lines ds) : parse (Text.joined "\n" lines) = .ok ds := by
  rw [parse_eq_pieces]
  cases lines with
  | nil =>
    cases h
    rfl
  | cons line rest =>
    have hpieces : Text.piecesAt '\n' (Text.joined "\n" (line :: rest)) = line :: rest :=
      Text.piecesAt_joined (List.cons_ne_nil line rest) h.no_feed
    rw [hpieces]
    exact parseLines_eq_ok_iff.mpr h.lists

/-- **Schema texts are read exactly.**  What is read are the declarations on the lines that are not
silent; this succeeds if each of these holds a name and a column, and otherwise gives the first that
does not, by its number among all lines; and declarations laid out in lines are read back. -/
theorem parse_exact :
    (∀ text ds, parse text = .ok ds ↔ Lists (Text.lines text) ds) ∧
      (∀ text, (∃ ds, parse text = .ok ds) ↔ ∀ line ∈ Text.lines text, Fine line) ∧
      (∀ text e, parse text = .error e ↔ FirstFault 1 (Text.lines text) e) ∧
      ∀ lines ds, Renders lines ds → parse (Text.joined "\n" lines) = .ok ds :=
  ⟨fun _ _ => parseLines_eq_ok_iff, fun _ => exists_parseLines_iff,
    fun _ _ => parseLines_eq_error_iff, fun _ _ => parse_of_renders⟩

/-- A comment, an empty line, and a table between tabs and with a carriage return behind it. -/
theorem parse_exact_sample :
    Renders ["# Marks", "", "\tMarks  pupil mark \r", ""]
        [{ name := "Marks", columns := [{ name := "pupil" }, { name := "mark" }] }] ∧
      parse "# Marks\n\n\tMarks  pupil mark \r\n" =
        .ok [{ name := "Marks", columns := [{ name := "pupil" }, { name := "mark" }] }] := by
  have hmarks : Writable { name := "Marks", columns := [{ name := "pupil" }, { name := "mark" }] } := by
    constructor
    all_goals decide +kernel
  have hspread : Text.Spread ["Marks", "pupil", "mark"] "\tMarks  pupil mark \r".toList :=
    Text.words_eq_iff.mp (by decide +kernel)
  have hcomment : Silent "# Marks" := isSilent_iff.mp (by decide +kernel)
  have hempty : Silent "" := isSilent_iff.mp (by decide +kernel)
  have hrenders := Renders.silent hcomment (by decide) <| .silent hempty (by decide) <|
    .declared hmarks hspread (by decide) <| .silent hempty (by decide) .nil
  exact ⟨hrenders, parse_exact.2.2.2 _ _ hrenders⟩

end FlatQuery.Schema
