import FlatQuery.Rows.Operator
import FlatQuery.Proofs.Outcome

/-!
# Starting over

Every operator has one state in which it stands before its first row: data files opened, nothing
read, nothing gathered (`Operator.start?`).  Setting up a tree of operators leads to that state
(`Built.start`), and starting over leads back to it from any other (`reset_of_start`), whatever was
asked for and whatever failed in between.  So a tree that has started over answers like one that has
just been set up.
-/

namespace FlatQuery.Rows

open Outcome

/-! ### The state before the first row -/

namespace Operator

variable {fs fs' : Files}

/-- The tables whose data files are read, from left to right. -/
def tables : Operator → List Table
  | listed _ => []
  | scan t => [t]
  | filter input _ => input.tables
  | project input _ _ => input.tables
  | join left right _ => left.tables ++ right.tables
  | sort input _ => input.tables
  | groupSum input _ => input.tables
  | distinct input => input.tables

/-- The state before the first row, if all data files can be opened. -/
def start? (fs : Files) : (op : Operator) → Except Error op.State
  | listed rows => .ok rows
  | scan t => openTable fs t
  | filter input _ => input.start? fs
  | project input _ _ => input.start? fs
  | join left right _ => do return { left := ← left.start? fs, right := ← right.start? fs }
  | sort input _ => do return { input := ← input.start? fs }
  | groupSum input _ => do return { input := ← input.start? fs }
  | distinct input => do return { input := ← input.start? fs }

/-- Only the data files of its tables matter for how an operator starts. -/
theorem start?_congr (op : Operator) (h : ∀ t ∈ op.tables, openTable fs' t = openTable fs t) :
    op.start? fs' = op.start? fs := by
  induction op with
  | listed rows => rfl
  | scan t => exact h t (List.mem_singleton_self t)
  | filter input on ih => exact ih h
  | project input indexes labels ih => exact ih h
  | join l r on ihl ihr =>
    have hl := ihl fun t ht => h t (List.mem_append_left _ ht)
    have hr := ihr fun t ht => h t (List.mem_append_right _ ht)
    simp only [start?, hl, hr]
    rfl
  | sort input keys ih =>
    simp only [start?, ih h]
    rfl
  | groupSum input spec ih =>
    simp only [start?, ih h]
    rfl
  | distinct input ih =>
    simp only [start?, ih h]
    rfl

/-- An operator that can start starts over from every state, and is then where it started. -/
theorem reset_of_start (op : Operator) {s₀ : op.State} (h : op.start? fs = .ok s₀)
    (s : op.State) : op.machine.reset fs s = (.ok (), s₀) := by
  -- starting over does not look at the state, but for those of the inputs
  induction op with
  | listed rows =>
    cases h
    rfl
  | scan t =>
    have ht : openTable fs t = .ok s₀ := h
    simp only [machine, scanned, ht]
    rfl
  | filter input on ih => exact ih h s
  | project input indexes labels ih => exact ih h s
  | join l r on ihl ihr =>
    obtain ⟨x, hx, h⟩ := bind_eq_ok_iff.mp h
    obtain ⟨y, hy, h⟩ := bind_eq_ok_iff.mp h
    cases h
    simp only [machine, joined, ihl hx s.left, ihr hy s.right]
    rfl
  | sort input keys ih =>
    obtain ⟨x, hx, h⟩ := bind_eq_ok_iff.mp h
    cases h
    simp only [machine, gathered, ih hx s.input]
    rfl
  | groupSum input spec ih =>
    obtain ⟨x, hx, h⟩ := bind_eq_ok_iff.mp h
    cases h
    simp only [machine, gathered, ih hx s.input]
    rfl
  | distinct input ih =>
    obtain ⟨x, hx, h⟩ := bind_eq_ok_iff.mp h
    cases h
    simp only [machine, gathered, ih hx s.input]
    rfl

end Operator

/-! ### Trees that have just been set up -/

/-- A tree of operators that has just been set up, its data files opened in `fs`. -/
inductive Built (fs : Files) : Cursor → Prop
  | listed (rows : List Row) : Built fs (.listed rows)
  | scan {t : Table} {c : Cursor} (hs : Cursor.scan fs t = .ok c) : Built fs c
  | filter {c c' : Cursor} {on : Option Expr} {scope : Scope} (hc : Built fs c)
      (hs : c.filter on scope = .ok c') : Built fs c'
  | project {c c' : Cursor} {columns : List ColumnRef} {scope : Scope} (hc : Built fs c)
      (hs : c.project columns scope = .ok c') : Built fs c'
  | join {l r c : Cursor} {on : Option Expr} {scope : Scope} (hl : Built fs l) (hr : Built fs r)
      (hs : l.join r on scope = .ok c) : Built fs c
  | sort {c : Cursor} (hc : Built fs c) (keys : List SortKey) : Built fs (c.sort keys)
  | groupSum {c c' : Cursor} {group shown : List ColumnRef} {sums : List Expr} {scope : Scope}
      (hc : Built fs c) (hs : c.groupSum group shown sums scope = .ok c') : Built fs c'
  | distinct {c : Cursor} (hc : Built fs c) : Built fs c.distinct

/-- A tree that has just been set up stands before its first row. -/
theorem Built.start {fs : Files} {c : Cursor} (hc : Built fs c) :
    c.op.start? fs = .ok c.state := by
  induction hc with
  | listed rows => rfl
  | scan hs =>
    obtain ⟨s, ho, h⟩ := bind_eq_ok_iff.mp hs
    cases h
    exact ho
  | filter _ hs ih =>
    obtain ⟨on, -, h⟩ := bind_eq_ok_iff.mp hs
    cases h
    exact ih
  | project _ hs ih =>
    obtain ⟨indexes, -, h⟩ := bind_eq_ok_iff.mp hs
    cases h
    exact ih
  | join _ _ hs ihl ihr =>
    obtain ⟨on, -, h⟩ := bind_eq_ok_iff.mp hs
    cases h
    exact bind_eq_ok_iff.mpr ⟨_, ihl, bind_eq_ok_iff.mpr ⟨_, ihr, rfl⟩⟩
  | sort _ keys ih => exact bind_eq_ok_iff.mpr ⟨_, ih, rfl⟩
  | groupSum _ hs ih =>
    obtain ⟨group, -, hs⟩ := bind_eq_ok_iff.mp hs
    obtain ⟨shown, -, hs⟩ := bind_eq_ok_iff.mp hs
    obtain ⟨sums, -, h⟩ := bind_eq_ok_iff.mp hs
    cases h
    exact bind_eq_ok_iff.mpr ⟨_, ih, rfl⟩
  | distinct _ ih => exact bind_eq_ok_iff.mpr ⟨_, ih, rfl⟩

/-! ### Runs of calls -/

/-- What a tree is asked for. -/
inductive Call where
  | next
  | reset
  deriving DecidableEq, Repr

/-- What a tree answers. -/
inductive Reply where
  | row (outcome : Except Error (Option Row))
  | started (outcome : Except Error Unit)

namespace Cursor

/-- The answer to a call, and the tree after it. -/
def reply (fs : Files) (c : Cursor) : Call → Reply × Cursor
  | .next => (.row (c.next fs).1, (c.next fs).2)
  | .reset => (.started (c.reset fs).1, (c.reset fs).2)

/-- The answers to calls, one after the other, and the tree after them.  Each call comes with the
files as they are at that time. -/
def run (c : Cursor) : List (Files × Call) → List Reply × Cursor
  | [] => ([], c)
  | (fs, call) :: rest =>
    ((c.reply fs call).1 :: ((c.reply fs call).2.run rest).1, ((c.reply fs call).2.run rest).2)

theorem op_reply (fs : Files) (c : Cursor) (call : Call) : (c.reply fs call).2.op = c.op := by
  cases call with
  | next => rfl
  | reset => rfl

theorem op_run (c : Cursor) (calls : List (Files × Call)) : (c.run calls).2.op = c.op := by
  induction calls generalizing c with
  | nil => rfl
  | cons call rest ih => exact (ih (c.reply call.1 call.2).2).trans (op_reply call.1 c call.2)

/-- A tree of the same operators that starts over becomes the tree as it was set up. -/
theorem reset_of_built {fs fs' : Files} {c d : Cursor} (hc : Built fs c) (hop : d.op = c.op)
    (hfs : ∀ t ∈ c.op.tables, openTable fs' t = openTable fs t) : d.reset fs' = (.ok (), c) := by
  obtain ⟨op, s⟩ := c
  obtain ⟨op', s'⟩ := d
  cases hop
  have hs : op.start? fs' = .ok s := (Operator.start?_congr op hfs).trans hc.start
  simp only [reset, Operator.reset_of_start op hs s']

end Cursor

/-- **Starting over.**  A tree that was set up and then run in any way, through failures and past
its end, can start over as long as its data files can be opened as before, and then answers all
calls like the tree that was set up. -/
theorem run_reset_run {fs fs' : Files} {c : Cursor} (hc : Built fs c)
    (hfs : ∀ t ∈ c.op.tables, openTable fs' t = openTable fs t) (calls : List (Files × Call)) :
    ∃ c', (c.run calls).2.reset fs' = (.ok (), c') ∧
      ∀ later : List (Files × Call), (c'.run later).1 = (c.run later).1 :=
  ⟨c, Cursor.reset_of_built hc (c.op_run calls) hfs, fun _ => rfl⟩

/-! ### Two small tables -/

namespace Sample

/-- A table of pupils and how old they are. -/
def pupils : Table :=
  { id := 1, name := "pupils", columns := [{ name := "id" }, { name := "age" }]
    dataFile := ⟨"pupils.csv"⟩ }

def marks : Table :=
  { id := 2, name := "marks", columns := [{ name := "pupil" }, { name := "mark" }]
    dataFile := ⟨"marks.csv"⟩ }

/-- The data files of both, with what they hold. -/
def filesWith (pupils marks : String) : Files where
  entries := [(["pupils.csv"], .file 0), (["marks.csv"], .file 1)]
  contents := [.text pupils, .text marks]

/-- Two pupils, one of whom got the same mark twice. -/
def files : Files := filesWith "1,14\n2,15\n" "1,3\n2,1\n1,3\n"

/-- That a mark is the mark of a pupil. -/
def matching : Expr :=
  .binary (.column { column := "id" }) .equal
    (.column { table := some "Marks", column := "pupil" })

def matchingTerm : Term :=
  .binary (.field 0 "id") .equal (.field 2 "marks.pupil")

theorem bind_matching :
    (Scope.ofTables [pupils, marks]).bind? (some matching) = .ok (some matchingTerm) := by
  decide +kernel

/-- The pupils with their marks, each pair once, before the first row. -/
def tree : Cursor where
  op := .distinct (.join (.scan pupils) (.scan marks) (some matchingTerm))
  state := { input := { left := { node := .file 0 }, right := { node := .file 1 } } }

theorem built_tree : Built files tree := by
  have hl : Built files ⟨.scan pupils, ({ node := .file 0 } : Files.Handle)⟩ :=
    .scan (show Cursor.scan files pupils = _ from rfl)
  have hr : Built files ⟨.scan marks, ({ node := .file 1 } : Files.Handle)⟩ :=
    .scan (show Cursor.scan files marks = _ from rfl)
  exact .distinct (.join hl hr (bind_eq_ok_iff.mpr ⟨_, bind_matching, rfl⟩))

end Sample

/-- A tree that has read two rows, failed on a field that is no integer, and is told to start over
once its files hold other rows. -/
theorem run_reset_run_sample :
    (Built Sample.files Sample.tree ∧
      ∀ t ∈ Sample.tree.op.tables,
        openTable (Sample.filesWith "2,15\n" "2,1\n") t = openTable Sample.files t) ∧
      ∃ c', (Sample.tree.run [(Sample.files, .next), (Sample.files, .next),
          (Sample.filesWith "x,15\n" "2,1\n", .reset),
          (Sample.filesWith "x,15\n" "2,1\n", .next)]).2.reset
            (Sample.filesWith "2,15\n" "2,1\n") = (.ok (), c') ∧
        ∀ later : List (Files × Call), (c'.run later).1 = (Sample.tree.run later).1 := by
  have hfs : ∀ t ∈ Sample.tree.op.tables,
      openTable (Sample.filesWith "2,15\n" "2,1\n") t = openTable Sample.files t :=
    List.forall_mem_cons.mpr ⟨rfl, List.forall_mem_cons.mpr ⟨rfl, fun _ h => nomatch h⟩⟩
  exact ⟨⟨Sample.built_tree, hfs⟩, run_reset_run Sample.built_tree hfs _⟩

end FlatQuery.Rows
