import FlatQuery.Proofs.Files.Place
import FlatQuery.Proofs.Name
import FlatQuery.Proofs.Rows.Denotation
import FlatQuery.Proofs.Rows.Written
import FlatQuery.Proofs.Text.Words

/-!
# Rows written and scanned again

A data file that is a text holds a row for each of its lines that is not blank (`tableRows_of_text`),
however the lines are ended (`textRows_of_ended`).  Such a row has fields with nothing to trim and
without the separator (`legible_ofLine`), and written out as a line it is read back from it
(`ofLine_text`).  So a text of rows that is written out holds the rows it was written from
(`textRows_terminated`).
-/

namespace FlatQuery.Rows

variable {line s : String} {lines : List String} {row : Row}

/-- The rows of a text: of its lines those that are not blank, cut at the separators and trimmed. -/
def textRows (s : String) : List Row :=
  ((Text.piecesAt '\n' s).filter fun line => !Text.isBlankText line).map (Row.ofLine Row.separator)

/-! ### Ends of lines -/

theorem isBlankText_append {ends : String} (h : ∀ c ∈ ends.toList, Text.isBlank c = true) :
    Text.isBlankText (line ++ ends) = Text.isBlankText line := by
  rw [Text.isBlankText, Text.isBlankText, String.toList_append, List.all_append,
    List.all_eq_true.mpr h, Bool.and_true]

theorem ofLine_append {ends : String} (h : ∀ c ∈ ends.toList, Text.isBlank c = true) :
    Row.ofLine Row.separator (line ++ ends) = Row.ofLine Row.separator line := by
  have hseparator : Row.separator ∉ ends.toList := fun hmem => nomatch h _ hmem
  obtain ⟨front, last, hpieces⟩ : ∃ front last,
      Text.piecesAt Row.separator line = front ++ [last] :=
    ⟨_, _, (List.dropLast_concat_getLast (Text.piecesAt_ne_nil Row.separator line)).symm⟩
  have htrim : Text.trim (last ++ ends) = Text.trim last := by
    rw [Text.trim, Text.trim, String.toList_append, Text.trimChars_append_blank h]
  rw [Row.ofLine, Row.ofLine, Text.piecesAt_append hpieces hseparator, hpieces, List.map_append,
    List.map_append, List.map_singleton, List.map_singleton, htrim]

theorem exists_lineEnd (line : String) : ∃ ends : String,
    line = withoutLineEnd line ++ ends ∧ ∀ c ∈ ends.toList, Text.isBlank c = true := by
  refine ⟨String.ofList (line.toList.rtakeWhile fun c => c == '\n' || c == '\r'), ?_, fun c hc => ?_⟩
  · rw [← String.toList_inj, withoutLineEnd, String.toList_append, String.toList_ofList,
      String.toList_ofList, Text.dropEndWhile_eq_rdropWhile, List.rdropWhile_append_rtakeWhile]
  · rw [String.toList_ofList] at hc
    have hend := List.mem_rtakeWhile_imp hc
    simp only [Bool.or_eq_true, beq_iff_eq] at hend
    rcases hend with rfl | rfl
    · decide
    · decide

theorem isBlankText_withoutLineEnd (line : String) :
    Text.isBlankText (withoutLineEnd line) = Text.isBlankText line := by
  obtain ⟨ends, hline, hends⟩ := exists_lineEnd line
  conv_rhs => rw [hline]
  exact (isBlankText_append hends).symm

theorem ofLine_withoutLineEnd (line : String) :
    Row.ofLine Row.separator (withoutLineEnd line) = Row.ofLine Row.separator line := by
  obtain ⟨ends, hline, hends⟩ := exists_lineEnd line
  conv_rhs => rw [hline]
  exact (ofLine_append hends).symm

/-! ### Scanning a text -/

theorem lineRows_map_some (path : String) (lines : List String) : lineRows path (lines.map some) =
    .ofList ((lines.filter fun line => !Text.isBlankText line).map (Row.ofLine Row.separator)) := by
  induction lines with
  | nil => rfl
  | cons line rest ih =>
    rw [List.map_cons, lineRows, isBlankText_withoutLineEnd, ofLine_withoutLineEnd, ih]
    cases hblank : Text.isBlankText line with
    | true => rw [if_pos rfl, List.filter_cons_of_neg (by simp [hblank])]
    | false =>
      rw [if_neg Bool.false_ne_true, List.filter_cons_of_pos (by simp [hblank]), List.map_cons]
      rfl

/-- The lines that are read from a text and those between its line feeds differ in blank ones only. -/
theorem filter_segments (s : String) :
    ((Text.segments '\n' s.toList).map String.ofList).filter (fun line => !Text.isBlankText line) =
      (Text.piecesAt '\n' s).filter fun line => !Text.isBlankText line := by
  obtain ⟨front, last, hpieces, hsegments⟩ := Text.segments_eq '\n' s.toList
  rw [Text.piecesAt, hpieces, hsegments]
  by_cases hlast : last = []
  · subst hlast
    rw [if_pos rfl, List.append_nil, List.map_append, List.filter_append]
    exact (List.append_nil _).symm
  · rw [if_neg hlast]

/-- **Scanning.**  A data file that is a text hands out the rows of the text. -/
theorem tableRows_of_text {fs : Files} {t : Table} {c : Content}
    (hread : fs.read t.dataFile = .ok c) (htext : c.text? = some s) :
    (∃ h, openTable fs t = .ok h) ∧ tableRows fs t = .ofList (textRows s) := by
  obtain ⟨place, id, hplace, hnode, hpath, rfl⟩ := Files.read_eq_ok_iff.mp hread
  have hfind : fs.find t.dataFile = .ok (.file id) :=
    Files.find_eq_file_iff.mpr ⟨place, hplace, hnode, hpath⟩
  have hopen : openTable fs t = .ok { node := .file id } := openTable_eq_ok_iff.mpr ⟨_, hfind, rfl⟩
  refine ⟨⟨_, hopen⟩, ?_⟩
  have hlines : Files.Handle.upcoming fs { node := .file id } =
      ((Text.segments '\n' s.toList).map String.ofList).map some := by
    rw [Files.Handle.upcoming, List.nil_append, Files.Handle.unread]
    simp only [Content.lines_drop_zero, Content.lines_of_text? htext, List.map_map]
    rfl
  rw [tableRows, hopen]
  simp only [handleRows]
  rw [hlines, lineRows_map_some, filter_segments, textRows]

/-! ### Rows read from lines -/

/-- That a row can be written as a line and read back. -/
structure Legible (row : Row) : Prop where
  some_field : row.fields ≠ []
  not_blank : row.fields ≠ [""]
  trimmed : ∀ f ∈ row.fields, Text.trim f = f
  no_separator : ∀ f ∈ row.fields, Row.separator ∉ f.toList
  no_feed : ∀ f ∈ row.fields, '\n' ∉ f.toList

theorem isBlankText_iff : Text.isBlankText s = true ↔ Text.trim s = "" := by
  rw [← String.toList_eq_nil_iff, ← List.head?_eq_none_iff, Text.head?_trim, Text.firstVisible?,
    List.find?_eq_none, Text.isBlankText, List.all_eq_true]
  simp

theorem legible_ofLine (hblank : Text.isBlankText line = false) (hfeed : '\n' ∉ line.toList) :
    Legible (Row.ofLine Row.separator line) := by
  have hfield : ∀ f ∈ (Row.ofLine Row.separator line).fields,
      ∃ piece ∈ Text.piecesAt Row.separator line, Text.trim piece = f :=
    fun f hf => List.mem_map.mp hf
  refine ⟨?_, fun hfields => ?_, fun f hf => ?_, fun f hf hmem => ?_, fun f hf hmem => ?_⟩
  · rw [Row.ofLine, Ne, List.map_eq_nil_iff]
    exact Text.piecesAt_ne_nil Row.separator line
  · -- an empty field alone comes from a blank line
    obtain ⟨piece, hpieces, htrim⟩ := List.map_eq_singleton_iff.mp hfields
    have hline := Text.joined_piecesAt Row.separator line
    rw [hpieces] at hline
    rw [← hline] at hblank
    exact Bool.false_ne_true (hblank.symm.trans (isBlankText_iff.mpr htrim))
  · obtain ⟨piece, -, rfl⟩ := hfield f hf
    exact Text.trim_trim piece
  · obtain ⟨piece, hpiece, rfl⟩ := hfield f hf
    rw [Text.trim, String.toList_ofList] at hmem
    exact Text.not_mem_of_mem_piecesAt hpiece (Text.mem_of_mem_trimChars hmem)
  · obtain ⟨piece, hpiece, rfl⟩ := hfield f hf
    rw [Text.trim, String.toList_ofList] at hmem
    exact hfeed (Text.mem_of_mem_piecesAt hpiece (Text.mem_of_mem_trimChars hmem))

theorem legible_of_mem_textRows (h : row ∈ textRows s) : Legible row := by
  obtain ⟨line, hline, rfl⟩ := List.mem_map.mp h
  obtain ⟨hpiece, hblank⟩ := List.mem_filter.mp hline
  exact legible_ofLine (by simpa using hblank) (Text.not_mem_of_mem_piecesAt hpiece)

namespace Legible

/-- **Reading back.**  The line of such a row gives the row. -/
theorem ofLine_text (h : Legible row) : Row.ofLine Row.separator row.text = row := by
  obtain ⟨first, rest, hfields⟩ := List.exists_cons_of_ne_nil h.some_field
  have htext : row.text = Text.joined "," (first :: rest.map (" " ++ ·)) := by
    rw [Row.text, hfields]
    exact Text.joined_append_sep "," " " first rest
  have hpieces : Text.piecesAt Row.separator row.text = first :: rest.map (" " ++ ·) := by
    rw [htext]
    refine Text.piecesAt_joined (List.cons_ne_nil _ _) fun f hf => ?_
    rcases List.mem_cons.mp hf with rfl | hf
    · exact h.no_separator f (hfields ▸ List.mem_cons_self ..)
    · obtain ⟨g, hg, rfl⟩ := List.mem_map.mp hf
      have hno := h.no_separator g (hfields ▸ List.mem_cons_of_mem first hg)
      rw [String.toList_append, List.mem_append, not_or]
      exact ⟨by decide, hno⟩
  have hspace : ∀ g ∈ rest, Text.trim (" " ++ g) = g := by
    intro g hg
    have hblank : ∀ c ∈ " ".toList, Text.isBlank c = true := by
      intro c hc
      obtain rfl : c = ' ' := List.mem_singleton.mp hc
      decide
    have htrimmed := h.trimmed g (hfields ▸ List.mem_cons_of_mem first hg)
    rw [Text.trim, String.toList_append, Text.trimChars_blank_append hblank]
    exact htrimmed
  have hfirst : Text.trim first = first := h.trimmed first (hfields ▸ List.mem_cons_self ..)
  rw [Row.ofLine, hpieces, List.map_cons, List.map_map, hfirst]
  obtain ⟨fields⟩ := row
  obtain rfl : fields = first :: rest := hfields
  exact congrArg (Row.mk <| first :: ·) ((List.map_congr_left hspace).trans (List.map_id' rest))

theorem no_feed_text (h : Legible row) : '\n' ∉ row.text.toList := by
  intro hmem
  rcases Text.mem_toList_joined hmem with hmem | ⟨f, hf, hmem⟩
  · exact absurd hmem (by decide)
  · exact h.no_feed f hf hmem

theorem isBlankText_text (h : Legible row) : Text.isBlankText row.text = false := by
  obtain ⟨fields⟩ := row
  refine Bool.eq_false_iff.mpr fun hblank => ?_
  match fields, h, hblank with
  | [], h, _ => exact h.some_field rfl
  | [f], h, hblank =>
    have htrim : Text.trim f = "" := isBlankText_iff.mp hblank
    rw [h.trimmed f (List.mem_singleton_self f)] at htrim
    exact h.not_blank (congrArg ([·]) htrim)
  | f :: g :: rest, _, hblank =>
    -- the separator between two fields is not blank
    have hseparator : Row.separator ∈ (f ++ ", " ++ Text.joined ", " (g :: rest)).toList := by
      rw [String.toList_append, String.toList_append]
      exact List.mem_append_left _ (List.mem_append_right _ (by decide))
    have hall := List.all_eq_true.mp hblank Row.separator hseparator
    revert hall
    decide

end Legible

/-! ### Texts of lines -/

theorem textRows_of_no_feed (h : '\n' ∉ line.toList) :
    textRows line = ([line].filter fun line => !Text.isBlankText line).map (Row.ofLine Row.separator) := by
  have hpieces : Text.piecesAt '\n' line = [line] := by
    rw [Text.piecesAt, List.splitOn_eq_singleton h, List.map_singleton, String.ofList_toList]
  rw [textRows, hpieces]

/-- The rows of a text are those of its first line and then those of the text behind it. -/
theorem textRows_append (h : '\n' ∉ line.toList) (s : String) :
    textRows (line ++ "\n" ++ s) = textRows line ++ textRows s := by
  have hpieces : Text.piecesAt '\n' (line ++ "\n" ++ s) = line :: Text.piecesAt '\n' s := by
    rw [Text.piecesAt, String.toList_append, String.toList_append, List.append_assoc]
    have hcut := List.splitOn_append_cons_self_of_not_mem h s.toList
    exact (congrArg (List.map String.ofList) hcut).trans
      (congrArg (· :: Text.piecesAt '\n' s) String.ofList_toList)
  rw [textRows_of_no_feed h, textRows, hpieces, ← List.singleton_append, List.filter_append,
    List.map_append]
  rfl

/-- The rows of a text of rows that were read are these rows. -/
theorem textRows_terminated {rows : List Row} (h : ∀ row ∈ rows, Legible row) :
    textRows (Text.terminated (rows.map (·.text))) = rows := by
  induction rows with
  | nil => rfl
  | cons row rest ih =>
    obtain ⟨hrow, hrest⟩ := List.forall_mem_cons.mp h
    have hline : [row.text].filter (fun line => !Text.isBlankText line) = [row.text] := by
      rw [List.filter_eq_self, List.forall_mem_singleton, hrow.isBlankText_text, Bool.not_false]
    rw [List.map_cons, Text.terminated, textRows_append hrow.no_feed_text, ih hrest,
      textRows_of_no_feed hrow.no_feed_text, hline, List.map_singleton, hrow.ofLine_text]
    rfl

/-- A text of lines each of which ends with a line feed, a return and a line feed, or, for the last
one, with the text. -/
inductive Ended : List String → String → Prop
  | nil : Ended [] ""
  | last {line : String} (h : '\n' ∉ line.toList) : Ended [line] line
  | feed {line s : String} {lines : List String} (h : '\n' ∉ line.toList) (hrest : Ended lines s) :
    Ended (line :: lines) (line ++ "\n" ++ s)
  | returned {line s : String} {lines : List String} (h : '\n' ∉ line.toList)
    (hrest : Ended lines s) : Ended (line :: lines) (line ++ "\r" ++ "\n" ++ s)

theorem textRows_return (h : '\n' ∉ line.toList) : textRows (line ++ "\r") = textRows line := by
  have hreturn : ∀ c ∈ "\r".toList, Text.isBlank c = true := by
    intro c hc
    obtain rfl : c = '\r' := List.mem_singleton.mp hc
    decide
  have hfeed : '\n' ∉ (line ++ "\r").toList := by
    rw [String.toList_append, List.mem_append, not_or]
    exact ⟨h, by decide⟩
  rw [textRows_of_no_feed h, textRows_of_no_feed hfeed, List.filter_singleton, List.filter_singleton,
    isBlankText_append hreturn]
  cases Text.isBlankText line with
  | true => rfl
  | false => exact congrArg ([·]) (ofLine_append hreturn)

/-- **Lines.**  However its lines are ended, a text holds a row for each that is not blank. -/
theorem textRows_of_ended (h : Ended lines s) : textRows s =
    (lines.filter fun line => !Text.isBlankText line).map (Row.ofLine Row.separator) := by
  have hcons : ∀ (line : String) (rest : List String), '\n' ∉ line.toList →
      ((line :: rest).filter fun line => !Text.isBlankText line).map (Row.ofLine Row.separator) =
        textRows line ++
          (rest.filter fun line => !Text.isBlankText line).map (Row.ofLine Row.separator) := by
    intro line rest hfeed
    rw [textRows_of_no_feed hfeed, ← List.map_append, ← List.filter_append, List.singleton_append]
  induction h with
  | nil => rfl
  | last hfeed => exact textRows_of_no_feed hfeed
  | @feed line s lines hfeed _ ih => rw [hcons line lines hfeed, textRows_append hfeed, ih]
  | @returned line s lines hfeed _ ih =>
    have hreturned : '\n' ∉ (line ++ "\r").toList := by
      rw [String.toList_append, List.mem_append, not_or]
      exact ⟨hfeed, by decide⟩
    rw [hcons line lines hfeed, textRows_append hreturned, textRows_return hfeed, ih]

end FlatQuery.Rows
