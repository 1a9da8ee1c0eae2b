import FlatQuery.Plan.Assemble

/-!
# The plan for FROM and WHERE

The plan is a scan of each table under the conjuncts about it alone, joins from left to right, and a
filter for what is left of the condition (`exists_of_base`).  Its tables are those of the FROM list,
in that order (`tables_of_base`), and it does nothing but join and select (`isBase_of_base`).
-/

namespace FlatQuery.Plan

variable {ts : List Table} {condition : Option Expr} {p : Plan}

/-- A plan under the conjuncts that no table and no join has taken. -/
def remaining (p : Plan) (c : Conjuncts) : Plan :=
  match Expr.conjunction? c.takeAll.1 with
  | some e => .filter p e
  | none => p

theorem exists_of_base (h : base ts condition = .ok p) :
    ∃ q, (condition = none ∧ q = none ∨ ∃ e q', condition = some e ∧ q = some q' ∧
        (Scope.ofTables ts).qualifyExpr e = .ok q') ∧
      ∃ t input rest c, selections (.ofCondition q) ts = ((t, input) :: rest, c) ∧
        p = remaining (joins [t.name] input c rest).1 (joins [t.name] input c rest).2 := by
  simp only [base] at h
  split at h
  · cases h
  · rename_i q hq
    refine ⟨q, ?_, ?_⟩
    · cases condition with
      | none =>
        cases hq
        exact .inl ⟨rfl, rfl⟩
      | some e =>
        simp only at hq
        split at hq
        · rename_i q' he
          cases hq
          exact .inr ⟨e, q', rfl, rfl, he⟩
        · cases hq
    · split at h
      · cases h
      · rename_i t input rest c hs
        refine ⟨t, input, rest, c, hs, ?_⟩
        split at h
        · rename_i e he
          cases h
          simp only [remaining, he]
        · rename_i he
          cases h
          simp only [remaining, he]

/-! ### Tables -/

theorem tables_selection (t : Table) (conditions : List Expr) :
    (selection t conditions).tables = [t] := by
  unfold selection
  split <;> rfl

/-- That each of some plans is over its table alone. -/
def EachOver (ins : List (Table × Plan)) : Prop :=
  ∀ x ∈ ins, x.2.tables = [x.1]

theorem eachOver_selections (c : Conjuncts) (ts : List Table) :
    EachOver (selections c ts).1 ∧ (selections c ts).1.map (·.1) = ts := by
  induction ts generalizing c with
  | nil => exact ⟨fun _ hx => (nomatch hx), rfl⟩
  | cons t ts ih =>
    obtain ⟨hover, hmap⟩ := ih (c.takeTable t.name).2
    exact ⟨List.forall_mem_cons.mpr ⟨tables_selection t _, hover⟩, congrArg (t :: ·) hmap⟩

theorem tables_joins {ins : List (Table × Plan)} (h : EachOver ins) (left : List String) (p : Plan)
    (c : Conjuncts) : (joins left p c ins).1.tables = p.tables ++ ins.map (·.1) := by
  induction ins generalizing left p c with
  | nil => exact (List.append_nil p.tables).symm
  | cons x ins ih =>
    obtain ⟨t, q⟩ := x
    obtain ⟨hq, hins⟩ := List.forall_mem_cons.mp h
    have hjoin : ∀ on, (Plan.join p q on).tables = p.tables ++ [t] := fun on =>
      congrArg (p.tables ++ ·) hq
    rw [joins]
    exact (ih hins ..).trans (by rw [hjoin, List.append_assoc]; rfl)

theorem tables_remaining (p : Plan) (c : Conjuncts) : (remaining p c).tables = p.tables := by
  unfold remaining
  split <;> rfl

theorem tables_of_base (h : base ts condition = .ok p) : p.tables = ts := by
  obtain ⟨q, -, t, input, rest, c, hs, rfl⟩ := exists_of_base h
  obtain ⟨hover, hmap⟩ := eachOver_selections (.ofCondition q) ts
  rw [hs] at hover hmap
  obtain ⟨ht, hrest⟩ := List.forall_mem_cons.mp hover
  rw [tables_remaining, tables_joins hrest, ht]
  exact hmap

/-- There is a plan for FROM and WHERE if there is a table and the condition can be brought into
full form. -/
theorem exists_base_iff : (∃ p, base ts condition = .ok p) ↔
    ts ≠ [] ∧ ∀ e, condition = some e → ∃ q, (Scope.ofTables ts).qualifyExpr e = .ok q := by
  constructor
  · rintro ⟨p, hp⟩
    obtain ⟨q, hq, t, input, rest, c, hs, -⟩ := exists_of_base hp
    refine ⟨?_, ?_⟩
    · rintro rfl
      cases hs
    · rintro e rfl
      rcases hq with ⟨hnone, -⟩ | ⟨e', q', he, -, hq'⟩
      · cases hnone
      · cases he
        exact ⟨q', hq'⟩
  · rintro ⟨hne, hcondition⟩
    cases ts with
    | nil => exact absurd rfl hne
    | cons t ts =>
      cases condition with
      | none =>
        simp only [base, selections]
        split
        · exact ⟨_, rfl⟩
        · exact ⟨_, rfl⟩
      | some e =>
        obtain ⟨q, hq⟩ := hcondition e rfl
        simp only [base, hq, selections]
        split
        · exact ⟨_, rfl⟩
        · exact ⟨_, rfl⟩

/-! ### Joining and selecting -/

/-- That a plan joins the rows of tables and selects among them, and does nothing else. -/
def IsBase : Plan → Prop
  | scan _ => True
  | select input t _ => input = scan t
  | join left right _ => left.IsBase ∧ right.IsBase
  | filter input _ => input.IsBase
  | _ => False

theorem isBase_selection (t : Table) (conditions : List Expr) :
    (selection t conditions).IsBase := by
  unfold selection
  split
  · exact rfl
  · exact trivial

theorem isBase_selections (c : Conjuncts) (ts : List Table) :
    ∀ x ∈ (selections c ts).1, x.2.IsBase := by
  induction ts generalizing c with
  | nil => exact fun _ hx => nomatch hx
  | cons t ts ih => exact List.forall_mem_cons.mpr ⟨isBase_selection t _, ih _⟩

theorem isBase_joins {ins : List (Table × Plan)} (h : ∀ x ∈ ins, x.2.IsBase) (left : List String)
    (c : Conjuncts) (hp : p.IsBase) : (joins left p c ins).1.IsBase := by
  induction ins generalizing left p c with
  | nil => exact hp
  | cons x ins ih =>
    obtain ⟨hx, hins⟩ := List.forall_mem_cons.mp h
    exact ih hins _ _ ⟨hp, hx⟩

theorem isBase_of_base (h : base ts condition = .ok p) : p.IsBase := by
  obtain ⟨q, -, t, input, rest, c, hs, rfl⟩ := exists_of_base h
  have hinputs := isBase_selections (.ofCondition q) ts
  rw [hs] at hinputs
  obtain ⟨hinput, hrest⟩ := List.forall_mem_cons.mp hinputs
  have hjoins := isBase_joins hrest [t.name] c hinput
  unfold remaining
  split
  · exact hjoins
  · exact hjoins

end FlatQuery.Plan
