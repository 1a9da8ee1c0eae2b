import FlatQuery.Proofs.Database.Agreement
import FlatQuery.Proofs.Rows.Late

/-!
# Queries that are refused

Running a query file into another first reads and plans the query and opens what it reads.  A query
that is refused there leaves all files as they are, and whatever can be wrong with a query is found
there (`Database.refused_untouched`): what fails after the output has been made is the output itself,
or what the rows hold.
-/

namespace FlatQuery.Database

open Rows Outcome

variable {db : Database} {fs fs' : Files} {input output : Path} {e : Error} {p : Plan.Prepared}

/-- That a query file is refused with an error: it cannot be read, holds no query, or holds one that
cannot be planned or whose data files cannot be opened. -/
inductive Refused [Sql.Parser] (db : Database) (fs : Files) (input : Path) : Error → Prop
  | unread {cause : Files.Error} (hread : fs.readText input = .error cause) :
    Refused db fs input (.parse (.file input.text cause))
  | unparsed {sql : String} {cause : Sql.Error} (hread : fs.readText input = .ok sql)
    (hparse : Sql.parse sql = .error cause) : Refused db fs input (.parse cause)
  | unplanned {sql : String} {q : Select} {cause : Plan.Error} (hread : fs.readText input = .ok sql)
    (hparse : Sql.parse sql = .ok q) (hplan : Plan.prepare fs db.catalog q = .error cause) :
    Refused db fs input (.plan cause)

/-- What comes before the output is made fails exactly if the query file is refused. -/
theorem refused_iff [Sql.Parser] :
    db.Refused fs input e ↔ (parseFile fs input >>= db.prepare fs) = .error e := by
  constructor
  · intro h
    cases h with
    | unread hread => rw [parseFile, hread, error_bind]
    | unparsed hread hparse =>
      rw [parseFile, hread]
      simp only [parse, hparse, error_bind]
    | unplanned hread hparse hplan =>
      rw [parseFile, hread]
      simp only [parse, hparse, ok_bind, prepare, hplan]
  · intro h
    rw [parseFile] at h
    -- in the order of the steps: reading, parsing, planning
    cases hread : fs.readText input with
    | error cause =>
      rw [hread] at h
      cases h
      exact .unread hread
    | ok sql =>
      simp only [hread, parse] at h
      cases hparse : Sql.parse sql with
      | error cause =>
        simp only [hparse, error_bind, Except.error.injEq] at h
        exact h ▸ .unparsed hread hparse
      | ok q =>
        simp only [hparse, ok_bind, prepare] at h
        cases hplan : Plan.prepare fs db.catalog q with
        | error cause =>
          simp only [hplan, Except.error.injEq] at h
          exact h ▸ .unplanned hread hparse hplan
        | ok p =>
          simp only [hplan] at h
          cases h

theorem start_of_planned [Sql.Parser] (h : (parseFile fs input >>= db.prepare fs) = .ok p) :
    p.cursor.op.start? fs = .ok p.cursor.state := by
  obtain ⟨q, hq, hprepare⟩ := bind_eq_ok_iff.mp h
  unfold parseFile at hq
  split at hq
  · next sql _ =>
    have hready : db.ready fs sql = .ok p := bind_eq_ok_iff.mpr ⟨q, hq, hprepare⟩
    exact (tables_of_ready hready).1
  · cases hq

/-! ### After the output has been made -/

theorem grown_createOutput (fs : Files) (output : Path) :
    fs.Grown (createOutput fs output).2 := by
  unfold createOutput
  split
  · next made hparents => exact (Files.made_of_makeParents hparents).grown
  · next made hparents =>
    have hgrown := (Files.made_of_makeParents hparents).grown
    split
    · exact hgrown
    · next written hwritten =>
      have hgrown' := hgrown.trans (Files.grown_of_write hwritten).1
      split
      · exact hgrown'
      · exact hgrown'
      · exact hgrown'

/-- A table that was open opens in the same way once there is more. -/
theorem openTable_of_grown (h : fs.Grown fs') {t : Table} {s : Files.Handle}
    (hopen : openTable fs t = .ok s) : openTable fs' t = .ok s := by
  obtain ⟨node, hfind, rfl⟩ := openTable_eq_ok_iff.mp hopen
  exact openTable_eq_ok_iff.mpr ⟨node, h.find_eq_ok hfind, rfl⟩

/-- Writing prepared rows fails for what the rows hold only, also where the output was made
meanwhile. -/
theorem late_of_writePrepared (h : fs.Grown fs')
    (hstart : p.cursor.op.start? fs = .ok p.cursor.state)
    (hwrite : (writePrepared fs' {} p).1 = .error e) :
    ∃ cause, e = .rows cause ∧ cause.isLate = true := by
  have hopen : ∀ t ∈ p.cursor.op.tables, ∃ s, openTable fs t = .ok s :=
    Operator.opens_of_start _ hstart
  have hsame : ∀ t ∈ p.cursor.op.tables, openTable fs' t = openTable fs t := by
    intro t ht
    obtain ⟨s, hs⟩ := hopen t ht
    exact (openTable_of_grown h hs).trans hs.symm
  have hstart' : p.cursor.op.start? fs' = .ok p.cursor.state :=
    (p.cursor.op.start?_congr hsame).trans hstart
  have hlate : (p.cursor.yield fs').EndsLate := by
    rw [Cursor.yield, Operator.yield_of_start _ hstart']
    exact Operator.late_yield _ (Operator.opens_of_start _ hstart')
  rw [(writePrepared_spec fs' p (show Writer.Unfailing {} from ⟨rfl, rfl⟩)).1, Yield.count] at hwrite
  cases herror : (p.cursor.yield fs').error with
  | none =>
    rw [herror] at hwrite
    cases hwrite
  | some cause =>
    rw [herror] at hwrite
    cases hwrite
    exact ⟨cause, rfl, hlate cause herror⟩

/-- **A query that is refused touches no file.**  The files are then as they were, whatever the output
is; and if running a query file fails in any other way, it is because the output cannot be made or
because of what the rows hold.  This is so whatever the parser is. -/
theorem refused_untouched [Sql.Parser] (db : Database) (fs : Files) (input output : Path) :
    (∀ e, db.Refused fs input e → db.runFile fs input output = (.error e, fs)) ∧
      ∀ e fs', db.runFile fs input output = (.error e, fs') →
        (db.Refused fs input e ∧ fs' = fs) ∨ (∃ cause, e = .file cause) ∨
          ∃ cause, e = .rows cause ∧ cause.isLate = true := by
  refine ⟨fun e h => ?_, fun e fs' h => ?_⟩
  · rw [runFile, refused_iff.mp h]
  · unfold runFile at h
    cases hplanned : parseFile fs input >>= db.prepare fs with
    | error e' =>
      rw [hplanned] at h
      cases h
      exact .inl ⟨refused_iff.mpr hplanned, rfl⟩
    | ok p =>
      have hgrown := grown_createOutput fs output
      rw [hplanned] at h
      cases houtput : createOutput fs output with
      | mk outcome made =>
        rw [houtput] at hgrown
        cases outcome with
        | error cause =>
          simp only [houtput] at h
          cases h
          exact .inr (.inl ⟨cause, rfl⟩)
        | ok id =>
          simp only [houtput] at h
          have hwrite : (writePrepared made {} p).1 = .error e := (Prod.mk.inj h).1
          exact .inr (.inr (late_of_writePrepared hgrown (start_of_planned hplanned) hwrite))

/-- The data file of the pupils is missing, and there is an output from before. -/
def absentFiles : Files where
  entries := [(["all.sql"], .file 0), (["out.txt"], .file 1)]
  contents := [.text "SELECT * FROM pupils", .text "1, 14\n"]

theorem refused_untouched_sample :
    sample.Refused absentFiles ⟨"all.sql"⟩ (.plan (.rows (.file "pupils.csv" .notFound))) ∧
      sample.runFile absentFiles ⟨"all.sql"⟩ ⟨"out.txt"⟩ =
        (.error (.plan (.rows (.file "pupils.csv" .notFound))), absentFiles) ∧
      absentFiles.readText ⟨"out.txt"⟩ = .ok "1, 14\n" := by
  have hread : absentFiles.readText ⟨"all.sql"⟩ = .ok "SELECT * FROM pupils" := by decide +kernel
  have hparse : Sql.parse "SELECT * FROM pupils" = .ok (Sql.everything "pupils") :=
    Sql.eq_everything (by decide +kernel)
  have hplan : Plan.prepare absentFiles sample.catalog (Sql.everything "pupils") =
      .error (.rows (.file "pupils.csv" .notFound)) := by rfl
  have hrefused := Refused.unplanned hread hparse hplan
  exact ⟨hrefused, (refused_untouched sample absentFiles _ _).1 _ hrefused, by decide +kernel⟩

end FlatQuery.Database
