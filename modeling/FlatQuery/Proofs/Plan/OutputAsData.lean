import FlatQuery.Proofs.Plan.NameStar
import FlatQuery.Proofs.Rows.Rescanned

/-!
# Output that is data again

All rows of a table, written out, make a text that can be the data file of a table with the same rows
(`Plan.output_is_data`).  What is read back from it are the same fields, although they are written with
a space behind each separator and without the blanks that stood around them.
-/

namespace FlatQuery

namespace Rows

/-- That a table can be opened and its rows are those of a list. -/
def Scans (fs : Files) (t : Table) (rows : List Row) : Prop :=
  ∃ c, Cursor.scan fs t = .ok c ∧ (c.drain fs).1 = rows ∧ (c.drain fs).2.1 = none

/-- A data file that is a text scans as the rows of the text. -/
theorem scans_of_text {fs : Files} {t : Table} {c : Content} {s : String}
    (hread : fs.read t.dataFile = .ok c) (htext : c.text? = some s) : Scans fs t (textRows s) := by
  obtain ⟨⟨h, hopen⟩, hrows⟩ := tableRows_of_text hread htext
  refine ⟨⟨.scan t, h⟩, ?_, ?_⟩
  · rw [Cursor.scan, hopen]
    rfl
  · have hdrain : (⟨(Cursor.drain fs ⟨.scan t, h⟩).1, (Cursor.drain fs ⟨.scan t, h⟩).2.1⟩ : Yield) =
        tableRows fs t := Cursor.drain_of_start (c := ⟨.scan t, h⟩) hopen
    rw [hrows] at hdrain
    exact ⟨congrArg Yield.rows hdrain, congrArg Yield.error hdrain⟩

/-- That a cursor hands out the rows of a text, and that what it writes holds them again. -/
structure ReadsBack (fs : Files) (c : Cursor) (s : String) : Prop where
  /-- It hands out the rows of the text. -/
  drained : (c.drain fs).1 = textRows s ∧ (c.drain fs).2.1 = none
  /-- These are one row for each line that is not blank, however the lines are ended. -/
  lines : ∀ lines, Ended lines s → textRows s =
    (lines.filter fun line => !Text.isBlankText line).map (Row.ofLine Row.separator)
  /-- There is nothing to trim in a field, and no separator. -/
  fields : ∀ row ∈ textRows s, row.fields ≠ [] ∧
    ∀ f ∈ row.fields, Text.trim f = f ∧ Row.separator ∉ f.toList
  /-- What it writes is a text, and a data file with this text holds the same rows. -/
  written : ∀ w : Writer, w.Unfailing → (c.write fs w).1 = .ok (textRows s).length ∧
    ∃ out : String, (c.write fs w).2.1.received = w.received ++ (Content.text out).bytes ∧
      ∀ fs' t' c', fs'.read t'.dataFile = .ok c' → c'.text? = some out →
        Scans fs' t' (textRows s)

/-- A cursor that hands out the rows of a text reads them back. -/
theorem readsBack_of_yield {fs : Files} {c : Cursor} {s : String}
    (h : c.yield fs = .ofList (textRows s)) : ReadsBack fs c s := by
  have hlegible : ∀ row ∈ textRows s, Legible row := fun row hrow => legible_of_mem_textRows hrow
  refine ⟨⟨congrArg Yield.rows h, congrArg Yield.error h⟩, fun lines => textRows_of_ended,
    fun row hrow => ⟨(hlegible row hrow).some_field, fun f hf =>
      ⟨(hlegible row hrow).trimmed f hf, (hlegible row hrow).no_separator f hf⟩⟩, fun w hw => ?_⟩
  obtain ⟨hanswer, hwriter⟩ := Cursor.write_spec fs c hw
  rw [h] at hanswer hwriter
  refine ⟨hanswer, Text.terminated ((textRows s).map (·.text)), ?_, fun fs' t' c' hread htext => ?_⟩
  · rw [hwriter]
    exact w.received_after (textRows s)
  · have hscans := scans_of_text hread htext
    rwa [textRows_terminated hlegible] at hscans

end Rows

namespace Plan

open Rows Outcome

variable {fs : Files} {catalog : Catalog} {name s : String} {t : Table} {c : Content}

theorem ofSelect_star (h : catalog.get name = .ok t) :
    ofSelect catalog { items := [.star], sources := [.table name] } = .ok (.scan t) := by
  have hlist : SelectList.analyse [.star] [] = .ok (.star none) := rfl
  have hbase : base [t] none = .ok (.scan t) := rfl
  simp only [ofSelect, hlist, sourceTables_one h, hbase, ok_bind, List.isEmpty_cons,
    Bool.false_eq_true, if_false]
  rfl

/-- **Output is data.**  Where the data file of a table is a text, `SELECT *` over the table hands out
a row for each line that is not blank, and what it writes holds exactly these rows again. -/
theorem output_is_data (hget : catalog.get name = .ok t) (hread : fs.read t.dataFile = .ok c)
    (htext : c.text? = some s) : ∃ p,
      prepare fs catalog { items := [.star], sources := [.table name] } = .ok p ∧
        p.plan = .scan t ∧ ReadsBack fs p.cursor s := by
  obtain ⟨⟨h, hopen⟩, hrows⟩ := tableRows_of_text hread htext
  have hcursor : (Plan.scan t).instantiate fs = .ok ⟨.scan t, h⟩ := by
    rw [instantiate, Cursor.scan, hopen]
    rfl
  refine ⟨⟨.scan t, (Plan.scan t).labels, ⟨.scan t, h⟩⟩, ?_, rfl, readsBack_of_yield ?_⟩
  · exact prepare_eq_ok_iff.mpr ⟨ofSelect_star hget, rfl, hcursor⟩
  · exact (Operator.yield_of_start (.scan t) hopen).trans hrows

/-! ### A sample -/

/-- Two pupils, with blanks around a field, a line between them, and no end behind the last. -/
def pupilsText : String := " 1 ,14\r\n \r\n2,15"

theorem output_is_data_sample :
    (sampleCatalog.get "Pupils" = .ok Sample.pupils ∧
      (Sample.filesWith pupilsText "").read Sample.pupils.dataFile = .ok (.text pupilsText)) ∧
    ∃ p, prepare (Sample.filesWith pupilsText "") sampleCatalog
        { items := [.star], sources := [.table "Pupils"] } = .ok p ∧
      p.plan = .scan Sample.pupils ∧ ReadsBack (Sample.filesWith pupilsText "") p.cursor pupilsText ∧
      textRows pupilsText = [⟨["1", "14"]⟩, ⟨["2", "15"]⟩] := by
  have hget : sampleCatalog.get "Pupils" = .ok Sample.pupils := by decide +kernel
  have hread : (Sample.filesWith pupilsText "").read Sample.pupils.dataFile =
      .ok (.text pupilsText) := by decide +kernel
  have hrows : textRows pupilsText = [⟨["1", "14"]⟩, ⟨["2", "15"]⟩] := by decide +kernel
  obtain ⟨p, hp, hplan, hreads⟩ := output_is_data hget hread rfl
  exact ⟨⟨hget, hread⟩, p, hp, hplan, hreads, hrows⟩

end Plan

end FlatQuery
