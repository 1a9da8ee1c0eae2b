import FlatQuery.Rows.Machine
import FlatQuery.Files.Handle
import FlatQuery.Catalog.Table

/-!
Where rows come from: a list of rows, or the data file of a table.
-/

namespace FlatQuery.Rows

/-! ### Rows in memory -/

/-- Hands out the rows of a list; the state holds those still to come. -/
def listed (rows : List Row) : Machine (List Row) where
  next _ s :=
    match s with
    | [] => (.ok none, [])
    | row :: rest => (.ok (some row), rest)
  reset _ _ := (.ok (), rows)
  size _ s := s.length
  full _ := rows.length
  size_next := by
    intro fs s row s' h
    cases s with
    | nil => simp at h
    | cons r rest => simp at h; simp [h.2]
  size_reset := by
    intro fs s s' h
    simp at h
    simp [h]

/-! ### Data files -/

/-- A line without the characters that end it. -/
def withoutLineEnd (line : String) : String :=
  String.ofList (Text.dropEndWhile (fun c => c == '\n' || c == '\r') line.toList)

/-- The row of the first line that is not blank, and the lines after it. -/
def firstRow (path : String) :
    List (Option String) → Except Error (Option Row) × List (Option String)
  | [] => (.ok none, [])
  | none :: rest => (.error (.file path .invalidData), rest)
  | some line :: rest =>
    let line := withoutLineEnd line
    if Text.isBlankText line then firstRow path rest
    else (.ok (some (Row.ofLine Row.separator line)), rest)

theorem length_firstRow {path : String} {ls ls' : List (Option String)} {row : Row}
    (h : firstRow path ls = (.ok (some row), ls')) : ls'.length < ls.length := by
  induction ls with
  | nil => simp [firstRow] at h
  | cons l ls ih =>
    cases l with
    | none => simp [firstRow] at h
    | some line =>
      simp only [firstRow] at h
      split at h
      · have := ih h
        simp only [List.length_cons]
        omega
      · simp only [Prod.mk.injEq] at h
        simp [h.2]

/-- Opens the data file of a table. -/
def openTable (fs : Files) (t : Table) : Except Error Files.Handle :=
  match fs.openPath t.dataFile with
  | .ok h => .ok h
  | .error e => .error (.file t.dataFile.text e)

/-- The next row of an open file.  The lines read before come first. -/
def nextScanned (path : String) (fs : Files) (h : Files.Handle) :
    Except Error (Option Row) × Files.Handle :=
  match h.node with
  | .directory => (.error (.file path .isADirectory), h)
  | .file _ =>
    match firstRow path h.pending with
    | (.ok none, _) =>
      let h := { h with pending := [] }.refill fs
      let (outcome, rest) := firstRow path h.pending
      (outcome, { h with pending := rest })
    | (outcome, rest) => (outcome, { h with pending := rest })

theorem lines_drop_size (c : Content) (n : Nat) : (c.drop (max n c.size)).lines = [] := by
  have h : c.size ≤ max n c.size := Nat.le_max_right _ _
  simp [Content.drop, h, Content.lines, Text.segments]

theorem upcoming_nextScanned {path : String} {fs : Files} {h h' : Files.Handle} {row : Row}
    (hn : nextScanned path fs h = (.ok (some row), h')) :
    (h'.upcoming fs).length < (h.upcoming fs).length := by
  obtain ⟨node, offset, pending⟩ := h
  cases node with
  | directory => simp [nextScanned] at hn
  | file id =>
    simp only [nextScanned] at hn
    split at hn
    · simp only [Files.Handle.refill, List.nil_append, Prod.mk.injEq] at hn
      obtain ⟨h1, h2⟩ := hn
      have h3 := length_firstRow (Prod.ext h1 rfl)
      subst h2
      simp only [Files.Handle.upcoming, List.length_append, Files.Handle.unread,
        lines_drop_size, List.length_nil] at h3 ⊢
      exact Nat.lt_of_lt_of_le h3 (Nat.le_add_left _ _)
    · rename_i outcome rest hne hf
      simp only [Prod.mk.injEq] at hn
      obtain ⟨h1, h2⟩ := hn
      have h3 := length_firstRow (h1 ▸ hf)
      subst h2
      simp only [Files.Handle.upcoming, List.length_append, Files.Handle.unread]
      omega

/-- Hands out the rows of a table's data file, a row for every line that is not blank. -/
def scanned (t : Table) : Machine Files.Handle where
  next fs h := nextScanned t.dataFile.text fs h
  reset fs h :=
    match openTable fs t with
    | .ok h' => (.ok (), h')
    | .error e => (.error e, h)
  size fs h := (h.upcoming fs).length
  full fs :=
    match openTable fs t with
    | .ok h => (h.upcoming fs).length
    | .error _ => 0
  size_next := fun _ _ _ _ h => upcoming_nextScanned h
  size_reset := by
    intro fs s s' h
    cases ho : openTable fs t with
    | ok h' => simp [ho] at h; simp [h]
    | error e => simp [ho] at h

end FlatQuery.Rows
