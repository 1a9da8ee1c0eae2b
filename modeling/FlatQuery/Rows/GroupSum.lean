import FlatQuery.Rows.Gather
import FlatQuery.Rows.Evaluate

/-!
Grouping and summing.  Rows that agree in the grouping fields form a group; a group gives one row,
made of some fields of its first row and of the sums over its rows.  Groups keep the order in which
they are first met.  Where nothing is grouped or shown, there is one row even for an empty input.
-/

namespace FlatQuery.Rows

/-- What is grouped, shown and summed. -/
structure GroupSpec where
  /-- The fields whose values tell groups apart. -/
  group : List Nat
  /-- The fields of a group's first row that are shown. -/
  shown : List Nat
  /-- The terms that are summed. -/
  sums : List Term
  deriving DecidableEq, Repr, Inhabited

/-- A group: the values of its grouping fields, those shown, and the sums so far. -/
structure Group where
  key : List String
  shown : List String
  sums : List Int
  deriving DecidableEq, Repr, Inhabited

namespace Group

/-- Adds the summands of a row to sums, from left to right. -/
def addSummands (row : Row) : List Term → List Int → Except Error (List Int)
  | t :: ts, sum :: sums => do
    let n ← t.summand row
    match Integer.add? sum n with
    | none => .error (.sumOverflow t)
    | some total => do
      let rest ← addSummands row ts sums
      return total :: rest
  | _, _ => .ok []

/-- The group with a row added to its sums. -/
def add (spec : GroupSpec) (g : Group) (row : Row) : Except Error Group := do
  return { g with sums := ← addSummands row spec.sums g.sums }

def toRow (g : Group) : Row :=
  ⟨g.shown ++ g.sums.map Integer.toText⟩

end Group

namespace GroupSpec

def zeros (spec : GroupSpec) : List Int :=
  List.replicate spec.sums.length 0

/-- Adds a row to the group with a key; a new group comes last. -/
def addToGroups (spec : GroupSpec) (key : List String) (row : Row) :
    List Group → Except Error (List Group)
  | [] => do
    let shown ← row.pick spec.shown
    let g ← Group.add spec { key, shown := shown.fields, sums := spec.zeros } row
    return [g]
  | g :: rest =>
    if g.key = key then do
      let g ← g.add spec row
      return g :: rest
    else do
      let rest ← addToGroups spec key row rest
      return g :: rest

/-- Adds a row to its group. -/
def addRow (spec : GroupSpec) (groups : List Group) (row : Row) : Except Error (List Group) := do
  let key ← row.pick spec.group
  spec.addToGroups key.fields row groups

def rows (spec : GroupSpec) (groups : List Group) : List Row :=
  if groups.isEmpty && spec.group.isEmpty && spec.shown.isEmpty then
    [Group.toRow { key := [], shown := [], sums := spec.zeros }]
  else groups.map Group.toRow

theorem length_addToGroups {spec : GroupSpec} {key : List String} {row : Row}
    {groups out : List Group} (h : spec.addToGroups key row groups = .ok out) :
    out.length ≤ groups.length + 1 := by
  induction groups generalizing out with
  | nil =>
    cases hs : row.pick spec.shown with
    | error e => simp [addToGroups, hs, bind, Except.bind] at h
    | ok shown =>
      cases hg : Group.add spec { key, shown := shown.fields, sums := spec.zeros } row with
      | error e => simp [addToGroups, hs, hg, bind, Except.bind] at h
      | ok g =>
        simp [addToGroups, hs, hg, bind, Except.bind, pure, Except.pure] at h
        simp [← h]
  | cons g rest ih =>
    by_cases hk : g.key = key
    · cases hg : g.add spec row with
      | error e => simp [addToGroups, hk, hg, bind, Except.bind] at h
      | ok g' =>
        simp [addToGroups, hk, hg, bind, Except.bind, pure, Except.pure] at h
        simp [← h]
    · cases hr : addToGroups spec key row rest with
      | error e => simp [addToGroups, hk, hr, bind, Except.bind] at h
      | ok rest' =>
        simp [addToGroups, hk, hr, bind, Except.bind, pure, Except.pure] at h
        have := ih hr
        simp only [← h, List.length_cons]
        omega

end GroupSpec

def grouping (spec : GroupSpec) : Gathering where
  Acc := List Group
  start := []
  step := spec.addRow
  finish groups := .ok (spec.rows groups)
  count groups := max 1 groups.length
  count_start := by simp
  count_step := by
    intro groups row out h
    unfold GroupSpec.addRow at h
    cases hk : row.pick spec.group with
    | error e => simp [hk, bind, Except.bind] at h
    | ok key =>
      simp only [hk, bind, Except.bind] at h
      have := GroupSpec.length_addToGroups h
      omega
  length_finish := by
    intro groups rows h
    simp only [Except.ok.injEq] at h
    subst h
    unfold GroupSpec.rows
    split
    · simp only [List.length_singleton]; omega
    · simp only [List.length_map]; omega

end FlatQuery.Rows
