import FlatQuery.Proofs.Rows.Product
import FlatQuery.Proofs.Rows.Resolve
import FlatQuery.Plan.Conjuncts

/-!
# Conditions with references in full

Once every reference of a condition is in full (`Scope.Fits`), the condition can be bound in any
part of the scope that has the tables it mentions (`Scope.Concerns`), and means there what it meant
in the whole (`truth_append`).  Bringing a condition into that form does not change its truth
(`truth_qualifyExpr`).
-/

namespace FlatQuery.Scope

open Outcome

/-- That every reference of an expression is in full and names a column of the tables. -/
def Fits (ts : List ScopeTable) (e : Expr) : Prop :=
  ∀ q ∈ e.columns, ∃ i, Located ts q i

/-- That every reference of an expression names one of the tables. -/
def Concerns (ts : List ScopeTable) (e : Expr) : Prop :=
  ∀ q ∈ e.columns, ∃ t ∈ ts, q.table = some t.name

variable {xs ws ys ts : List ScopeTable} {e q : Expr}

/-! ### Parts of a scope -/

theorem Concerns.mono {us : List ScopeTable} (h : Concerns ts e) (hsub : ts ⊆ us) :
    Concerns us e := by
  intro q hq
  obtain ⟨t, ht, hqt⟩ := h q hq
  exact ⟨t, hsub ht, hqt⟩

theorem Fits.narrow (hr : Regular (xs ++ ws ++ ys)) (h : Fits (xs ++ ws ++ ys) e)
    (hc : Concerns ws e) : Fits ws e := by
  intro q hq
  obtain ⟨i, hi⟩ := h q hq
  obtain ⟨k, -, hk⟩ := hi.narrow hr (hc q hq)
  exact ⟨k, hk⟩

theorem Fits.of_append (hr : Regular (ws ++ ys)) (h : Fits (ws ++ ys) e) (hc : Concerns ws e) :
    Fits ws e :=
  @Fits.narrow [] ws ys e hr h hc

theorem Fits.of_mem {t : ScopeTable} (hr : Regular ts) (h : Fits ts e) (ht : t ∈ ts)
    (hc : Concerns [t] e) : Fits [t] e := by
  obtain ⟨xs, ys, rfl⟩ := List.append_of_mem ht
  rw [List.append_cons] at hr h
  exact h.narrow hr hc

theorem Regular.of_mem {t : ScopeTable} (hr : Regular ts) (ht : t ∈ ts) : Regular [t] := by
  obtain ⟨xs, ys, rfl⟩ := List.append_of_mem ht
  rw [List.append_cons] at hr
  exact hr.segment

/-- A condition means the same about some neighbouring tables alone as about all of them. -/
theorem truth_append (hr : Regular (xs ++ ws ++ ys)) (h : Fits (xs ++ ws ++ ys) e)
    (hc : Concerns ws e) {a r b : Row} (ha : a.width = widthOf xs) (hw : r.width = widthOf ws) :
    e.truth ((joined (xs ++ ws ++ ys)).value ((a.append r).append b)) =
      e.truth ((joined ws).value r) := by
  refine Expr.truth_congr ?_
  intro q hq
  obtain ⟨i, hi⟩ := h q hq
  obtain ⟨k, rfl, hk⟩ := hi.narrow hr (hc q hq)
  have hlt : k < r.fields.length := Nat.lt_of_lt_of_eq hk.lt hw.symm
  have hfield : ((a.append r).append b).fields[widthOf xs + k]? = r.fields[k]? := by
    rw [← ha]
    show (a.fields ++ r.fields ++ b.fields)[a.fields.length + k]? = _
    rw [List.append_assoc, List.getElem?_append_right (Nat.le_add_right _ _),
      Nat.add_sub_cancel_left, List.getElem?_append_left hlt]
  simp only [value, hi.resolve_joined hr, hk.resolve_joined hr.segment, toOption_ok,
    Option.bind_some, hfield]

theorem truth_append_left (hr : Regular (ws ++ ys)) (h : Fits (ws ++ ys) e) (hc : Concerns ws e)
    {r : Row} (hw : r.width = widthOf ws) (b : Row) :
    e.truth ((joined (ws ++ ys)).value (r.append b)) = e.truth ((joined ws).value r) :=
  @truth_append [] ws ys e hr h hc ⟨[]⟩ r b rfl hw

theorem truth_append_right (hr : Regular (xs ++ ws)) (h : Fits (xs ++ ws) e) (hc : Concerns ws e)
    {a r : Row} (ha : a.width = widthOf xs) (hw : r.width = widthOf ws) :
    e.truth ((joined (xs ++ ws)).value (a.append r)) = e.truth ((joined ws).value r) := by
  rw [← List.append_nil (xs ++ ws)] at hr h
  have happend := truth_append hr h hc ha hw (b := ⟨[]⟩)
  rw [Row.append_nil, List.append_nil] at happend
  exact happend

/-! ### Binding -/

theorem Fits.exists_bind (hr : Regular ts) (h : Fits ts e) :
    ∃ on, (joined ts).bind e = .ok on := by
  refine Scope.exists_bind ?_
  intro q hq
  obtain ⟨i, hi⟩ := h q hq
  exact ⟨i, hi.resolve_joined hr⟩

theorem Fits.exists_bind_single {t : ScopeTable} (hr : Regular [t]) (h : Fits [t] e) :
    ∃ on, (single t).bind e = .ok on := by
  refine Scope.exists_bind ?_
  intro q hq
  obtain ⟨i, hi⟩ := h q hq
  exact ⟨i, hi.resolve_single hr⟩

/-- A table alone and a join of one table are the same scope. -/
theorem truth_single {t : ScopeTable} (hr : Regular [t]) (h : Fits [t] e) (row : Row) :
    e.truth ((single t).value row) = e.truth ((joined [t]).value row) := by
  refine Expr.truth_congr ?_
  intro q hq
  obtain ⟨i, hi⟩ := h q hq
  simp only [value, hi.resolve_single hr, hi.resolve_joined hr]

/-! ### From any condition to one in full -/

mutual

/-- Every reference of a condition in full is the full form of a reference. -/
theorem mem_columns_of_qualifyExpr {s : Scope} : ∀ {e q : Expr}, s.qualifyExpr e = .ok q →
    ∀ c ∈ q.columns, ∃ d, s.qualify d = .ok c
  | .column d, q, h, c, hc => by
    obtain ⟨c', hq, h⟩ := bind_eq_ok_iff.mp h
    cases h
    exact ⟨d, List.mem_singleton.mp hc ▸ hq⟩
  | .literal v, q, h, c, hc => by
    cases h
    cases hc
  | .binary l op r, q, h, c, hc => by
    obtain ⟨x, hx, h⟩ := bind_eq_ok_iff.mp h
    obtain ⟨y, hy, h⟩ := bind_eq_ok_iff.mp h
    cases h
    rcases List.mem_append.mp hc with hc | hc
    · exact mem_columns_of_qualifyExpr hx c hc
    · exact mem_columns_of_qualifyExpr hy c hc
  | .nested e, q, h, c, hc => by
    obtain ⟨x, hx, h⟩ := bind_eq_ok_iff.mp h
    cases h
    exact mem_columns_of_qualifyExpr hx c hc
  | .call name args, q, h, c, hc => by
    obtain ⟨xs, hxs, h⟩ := bind_eq_ok_iff.mp h
    cases h
    exact mem_columns_of_qualifyArguments hxs c hc

theorem mem_columns_of_qualifyArguments {s : Scope} : ∀ {args qs : List Argument},
    s.qualifyArguments args = .ok qs → ∀ c ∈ Expr.argumentsColumns qs, ∃ d, s.qualify d = .ok c
  | [], qs, h, c, hc => by
    cases h
    cases hc
  | a :: rest, qs, h, c, hc => by
    obtain ⟨x, hx, h⟩ := bind_eq_ok_iff.mp h
    obtain ⟨xs, hxs, h⟩ := bind_eq_ok_iff.mp h
    cases h
    rcases List.mem_append.mp hc with hc | hc
    · exact mem_columns_of_qualifyArgument hx c hc
    · exact mem_columns_of_qualifyArguments hxs c hc

theorem mem_columns_of_qualifyArgument {s : Scope} : ∀ {a q : Argument},
    s.qualifyArgument a = .ok q → ∀ c ∈ Expr.argumentColumns q, ∃ d, s.qualify d = .ok c
  | .expr e, q, h, c, hc => by
    obtain ⟨x, hx, h⟩ := bind_eq_ok_iff.mp h
    cases h
    exact mem_columns_of_qualifyExpr hx c hc
  | .star, q, h, c, hc => by
    cases h
    cases hc

end

theorem fits_of_qualifyExpr (h : (joined ts).qualifyExpr e = .ok q) : Fits ts q := by
  intro c hc
  obtain ⟨d, hd⟩ := mem_columns_of_qualifyExpr h c hc
  obtain ⟨i, -, hi⟩ := located_of_qualify hd
  exact ⟨i, hi⟩

theorem exists_qualify_iff {c : ColumnRef} :
    (∃ q, (joined ts).qualify c = .ok q) ↔ ∃ i, (joined ts).resolve c = .ok i := by
  constructor
  · rintro ⟨q, hq⟩
    obtain ⟨i, hi, -⟩ := bind_eq_ok_iff.mp hq
    exact ⟨i, hi⟩
  · rintro ⟨i, hi⟩
    obtain ⟨front, t, back, j, rfl, hj, rfl, -⟩ := exists_of_resolve_joined hi
    obtain ⟨hlt, hcolumn, -⟩ := List.idxOf?_eq_some_iff.mp hj
    have howner := owner_append front back (List.getElem?_eq_some_iff.mpr ⟨hlt, hcolumn⟩)
    refine ⟨{ table := some t.name, column := Name.canonical c.column }, ?_⟩
    simp only [qualify, hi, ok_bind, tables, howner]

mutual

/-- An expression can be brought into full form if each of its references can be resolved. -/
theorem exists_qualifyExpr_iff : ∀ e : Expr, (∃ q, (joined ts).qualifyExpr e = .ok q) ↔
    ∀ c ∈ e.columns, ∃ i, (joined ts).resolve c = .ok i
  | .column c => by
    rw [qualifyExpr, exists_bind_pure_iff, exists_qualify_iff, Expr.columns,
      List.forall_mem_singleton]
  | .literal v => iff_of_true ⟨_, rfl⟩ fun c hc => nomatch hc
  | .binary l op r => by
    rw [qualifyExpr, exists_bind_iff fun _ => exists_bind_pure_iff, exists_qualifyExpr_iff l,
      exists_qualifyExpr_iff r, Expr.columns, List.forall_mem_append]
  | .nested e => by
    rw [qualifyExpr, exists_bind_pure_iff, exists_qualifyExpr_iff e, Expr.columns]
  | .call name args => by
    rw [qualifyExpr, exists_bind_pure_iff, exists_qualifyArguments_iff args, Expr.columns]

theorem exists_qualifyArguments_iff : ∀ args : List Argument,
    (∃ qs, (joined ts).qualifyArguments args = .ok qs) ↔
      ∀ c ∈ Expr.argumentsColumns args, ∃ i, (joined ts).resolve c = .ok i
  | [] => iff_of_true ⟨_, rfl⟩ fun c hc => nomatch hc
  | a :: rest => by
    rw [qualifyArguments, exists_bind_iff fun _ => exists_bind_pure_iff,
      exists_qualifyArgument_iff a, exists_qualifyArguments_iff rest, Expr.argumentsColumns,
      List.forall_mem_append]

theorem exists_qualifyArgument_iff : ∀ a : Argument,
    (∃ q, (joined ts).qualifyArgument a = .ok q) ↔
      ∀ c ∈ Expr.argumentColumns a, ∃ i, (joined ts).resolve c = .ok i
  | .expr e => by
    rw [qualifyArgument, exists_bind_pure_iff, exists_qualifyExpr_iff e, Expr.argumentColumns]
  | .star => iff_of_true ⟨_, rfl⟩ fun c hc => nomatch hc

end

/-- A condition that can be brought into full form can be bound as it is. -/
theorem exists_bind_of_qualifyExpr {s : Scope} (h : s.qualifyExpr e = .ok q) :
    ∃ on, s.bind e = .ok on := by
  induction e using Expr.shallow generalizing q with
  | column d =>
    obtain ⟨c', hq, -⟩ := bind_eq_ok_iff.mp h
    obtain ⟨i, hi, -⟩ := bind_eq_ok_iff.mp hq
    exact ⟨_, bind_eq_ok_iff.mpr ⟨i, hi, rfl⟩⟩
  | literal v => exact ⟨_, rfl⟩
  | binary l op r ihl ihr =>
    obtain ⟨x, hx, h⟩ := bind_eq_ok_iff.mp h
    obtain ⟨y, hy, -⟩ := bind_eq_ok_iff.mp h
    obtain ⟨x', hx'⟩ := ihl hx
    obtain ⟨y', hy'⟩ := ihr hy
    exact ⟨_, bind_eq_ok_iff.mpr ⟨x', hx', bind_eq_ok_iff.mpr ⟨y', hy', rfl⟩⟩⟩
  | nested e ih =>
    obtain ⟨x, hx, -⟩ := bind_eq_ok_iff.mp h
    obtain ⟨x', hx'⟩ := ih hx
    exact ⟨_, bind_eq_ok_iff.mpr ⟨x', hx', rfl⟩⟩
  | call name args => exact ⟨_, rfl⟩

theorem value_of_qualify (hr : Regular ts) {c d : ColumnRef} (h : (joined ts).qualify d = .ok c)
    (row : Row) : (joined ts).value row c = (joined ts).value row d := by
  obtain ⟨i, hi, hloc⟩ := located_of_qualify h
  simp only [value, hi, hloc.resolve_joined hr]

theorem number_qualifyExpr (hr : Regular ts) (h : (joined ts).qualifyExpr e = .ok q) (row : Row) :
    q.number ((joined ts).value row) = e.number ((joined ts).value row) := by
  induction e using Expr.shallow generalizing q with
  | column d =>
    obtain ⟨c, hc, h⟩ := bind_eq_ok_iff.mp h
    cases h
    rw [Expr.number, Expr.number, value_of_qualify hr hc]
  | literal v =>
    cases h
    rfl
  | binary l op r ihl ihr =>
    obtain ⟨x, hx, h⟩ := bind_eq_ok_iff.mp h
    obtain ⟨y, hy, h⟩ := bind_eq_ok_iff.mp h
    cases h
    rfl
  | nested e ih =>
    obtain ⟨x, hx, h⟩ := bind_eq_ok_iff.mp h
    cases h
    have hx' := ih hx
    exact hx'
  | call name args =>
    obtain ⟨x, hx, h⟩ := bind_eq_ok_iff.mp h
    cases h
    rfl

theorem truth_qualifyExpr (hr : Regular ts) (h : (joined ts).qualifyExpr e = .ok q) (row : Row) :
    q.truth ((joined ts).value row) = e.truth ((joined ts).value row) := by
  induction e using Expr.shallow generalizing q with
  | column d =>
    obtain ⟨c, hc, h⟩ := bind_eq_ok_iff.mp h
    cases h
    rfl
  | literal v =>
    cases h
    rfl
  | binary l op r ihl ihr =>
    obtain ⟨x, hx, h⟩ := bind_eq_ok_iff.mp h
    obtain ⟨y, hy, h⟩ := bind_eq_ok_iff.mp h
    cases h
    simp only [Expr.truth, ihl hx, ihr hy, number_qualifyExpr hr hx, number_qualifyExpr hr hy]
  | nested e ih =>
    obtain ⟨x, hx, h⟩ := bind_eq_ok_iff.mp h
    cases h
    have hx' := ih hx
    exact hx'
  | call name args =>
    obtain ⟨x, hx, h⟩ := bind_eq_ok_iff.mp h
    cases h
    rfl

/-! ### Which tables a conjunct is about -/

/-- The tables of a condition in full are those that its references name. -/
theorem mem_tables (hr : Regular ts) (h : Fits ts e) {c : ColumnRef} (hc : c ∈ e.columns) :
    ∃ name ∈ e.tables, c.table = some name := by
  obtain ⟨i, front, t, back, j, rfl, hct, -, -, -⟩ := h c hc
  refine ⟨t.name, ?_, hct⟩
  rw [Expr.tables, Name.mem_sorted, List.mem_filterMap]
  refine ⟨c, hc, ?_⟩
  rw [hct, Option.map_some, hr.name t (List.mem_append_right _ (List.mem_cons_self ..))]

theorem concerns_of_mentionsOnly (hr : Regular ts) (h : Fits ts e) {t : ScopeTable}
    (hm : Conjuncts.mentionsOnly t.name e = true) : Concerns [t] e := by
  intro c hc
  obtain ⟨name, hname, hct⟩ := mem_tables hr h hc
  have ht := List.all_eq_true.mp hm name hname
  exact ⟨t, List.mem_singleton_self t, hct.trans (congrArg some (beq_iff_eq.mp ht))⟩

theorem concerns_of_connects (hr : Regular ts) (h : Fits ts e) {t : ScopeTable}
    (hm : Conjuncts.connects (ws.map (·.name)) t.name e = true) : Concerns (ws ++ [t]) e := by
  intro c hc
  obtain ⟨name, hname, hct⟩ := mem_tables hr h hc
  obtain ⟨-, hall⟩ := Bool.and_eq_true_iff.mp hm
  rcases Bool.or_eq_true_iff.mp (List.all_eq_true.mp hall name hname) with ht | ht
  · exact ⟨t, List.mem_append_right _ (List.mem_singleton_self t),
      hct.trans (congrArg some (beq_iff_eq.mp ht))⟩
  · obtain ⟨u, hu, rfl⟩ := List.mem_map.mp (List.contains_iff_mem.mp ht)
    exact ⟨u, List.mem_append_left _ hu, hct⟩

end FlatQuery.Scope
