import FlatQuery.Proofs.Plan.Base
import FlatQuery.Proofs.Plan.Bound
import FlatQuery.Proofs.Query.Qualified
import FlatQuery.Proofs.Rows.Product

/-!
# Pushing conjuncts down

The plan for FROM and WHERE hands out the combinations of rows that pass the condition, although it
tests each conjunct as soon as its tables have been joined.

The invariant is `Pushed`: a plan over some tables has taken some conjuncts.  A table starts with the
conjuncts about it alone, joins and filters take more of them, and in the end all have been taken
(`pushed_base`).  Such a plan hands out the product of the rows of its tables as far as it passes the
conjuncts that it has taken (`Pushed.gives`).
-/

namespace FlatQuery.Plan

open Rows Outcome Scope

/-! ### Testing conjuncts -/

/-- Whether a row passes conditions that are bound in a scope. -/
def accepted (s : Scope) (es : List Expr) (row : Row) : Bool :=
  es.all fun e => e.truth (s.value row) == some true

theorem accepted_iff {s : Scope} {es : List Expr} {row : Row} :
    accepted s es row = true ↔ ∀ e ∈ es, e.truth (s.value row) = some true := by
  simp only [accepted, List.all_eq_true, beq_iff_eq]

/-- That a bound condition tests what some conditions say in a scope. -/
structure Tests (s : Scope) (es : List Expr) (on : Option Term) : Prop where
  accepts : ∀ row, Term.passes on row = .ok true ↔ accepted s es row = true
  evaluates : ∀ row, (∃ b, Term.passes on row = .ok b) ↔
    ∀ e ∈ es, (e.truth (s.value row)).isSome

variable {s : Scope} {es : List Expr} {on : Option Term} {op : Operator}

theorem accepted_append (s : Scope) (es fs : List Expr) (r : Row) :
    accepted s (es ++ fs) r = (accepted s es r && accepted s fs r) :=
  List.all_append

theorem accepted_congr {s' : Scope} {r r' : Row}
    (h : ∀ e ∈ es, e.truth (s.value r) = e.truth (s'.value r')) :
    accepted s es r = accepted s' es r' := by
  rw [Bool.eq_iff_iff, accepted_iff, accepted_iff]
  exact forall₂_congr fun e he => by rw [h e he]

/-- A condition that has been bound tests the conjuncts of any condition that means the same. -/
theorem tests_of_bind {e q : Expr} {t : Term} (h : s.bind e = .ok t)
    (hq : ∀ row, q.truth (s.value row) = e.truth (s.value row))
    (hall : ∀ P : Expr → Prop, Expr.Conjunctive P → (P q ↔ ∀ c ∈ es, P c)) :
    Tests s es (some t) where
  accepts row := by
    rw [accepted_iff, ← hall _ Expr.conjunctive_true, hq, ← toOption_holds h,
      toOption_eq_some_iff]
    rfl
  evaluates row := by
    rw [← hall _ Expr.conjunctive_defined, hq, ← toOption_holds h, Option.isSome_iff_exists]
    exact exists_congr fun b => toOption_eq_some_iff.symm

theorem tests_none (s : Scope) : Tests s [] none where
  accepts _ := iff_of_true rfl rfl
  evaluates _ := iff_of_true ⟨true, rfl⟩ fun _ h => absurd h List.not_mem_nil

theorem tests_of_bind_conjunction (h : s.bind? (Expr.conjunction? es) = .ok on) :
    Tests s es on := by
  cases hc : Expr.conjunction? es with
  | none =>
    rw [hc] at h
    cases h
    cases es with
    | nil => exact tests_none s
    | cons e es => cases hc
  | some e =>
    rw [hc] at h
    obtain ⟨t, ht, h⟩ := bind_eq_ok_iff.mp h
    cases h
    exact tests_of_bind ht (fun _ => rfl) fun P hP => hP.iff_conjunction hc

/-! ### Conjuncts about a table, and about joined tables -/

abbrev scopeTables (ts : List Table) : List ScopeTable := ts.map .ofTable

theorem exists_bind_conjunction {ts : List ScopeTable} (hr : Regular ts)
    (hfit : ∀ e ∈ es, Fits ts e) :
    ∃ on, (joined ts).bind? (Expr.conjunction? es) = .ok on ∧ Tests (joined ts) es on := by
  have hbind : ∃ on, (joined ts).bind? (Expr.conjunction? es) = .ok on := by
    cases hc : Expr.conjunction? es with
    | none => exact ⟨none, rfl⟩
    | some e =>
      have he : Fits ts e := ((Expr.conjunctive_columns _).iff_conjunction hc).mpr hfit
      obtain ⟨t, ht⟩ := he.exists_bind hr
      exact ⟨some t, bind_eq_ok_iff.mpr ⟨t, ht, rfl⟩⟩
  obtain ⟨on, hon⟩ := hbind
  exact ⟨on, hon, tests_of_bind_conjunction hon⟩

/-- Bound in the scope of its table, a condition tests what it says about a join of that table. -/
theorem exists_bind_single {t : ScopeTable} (hr : Regular [t]) (hfit : ∀ e ∈ es, Fits [t] e)
    {e : Expr} (hc : Expr.conjunction? es = some e) :
    ∃ on, (single t).bind e = .ok on ∧ Tests (joined [t]) es (some on) := by
  have he : Fits [t] e := ((Expr.conjunctive_columns _).iff_conjunction hc).mpr hfit
  obtain ⟨on, hon⟩ := he.exists_bind_single hr
  have htests := tests_of_bind hon (fun _ => rfl) fun P hP => hP.iff_conjunction hc
  have hsame : ∀ row, ∀ e ∈ es, e.truth ((single t).value row) = e.truth ((joined [t]).value row) :=
    fun row e he => truth_single hr (hfit e he) row
  refine ⟨on, hon, fun row => ?_, fun row => ?_⟩
  · rw [htests.accepts, accepted_congr (hsame row)]
  · rw [htests.evaluates]
    exact forall₂_congr fun e he => by rw [hsame row e he]

/-! ### The invariant -/

/-- That the data file of a table holds exactly some rows, each as wide as the table. -/
structure Holds (fs : Files) (t : Table) (rows : List Row) : Prop where
  read : tableRows fs t = .ofList rows
  width : ∀ r ∈ rows, r.width = t.columns.length

/-- That an operator over some tables hands out the combinations of their rows that pass some
conditions; and that nothing fails if no table is empty and the conditions can be evaluated. -/
structure Gives (fs : Files) (rows : Table → List Row) (ts : List Table) (es : List Expr)
    (op : Operator) : Prop where
  reads : ∀ t ∈ op.tables, t ∈ ts
  agrees : (op.yield fs).Agrees ((product (ts.map rows)).filter (accepted (.ofTables ts) es))
  evaluates : (∀ t ∈ ts, rows t ≠ []) →
    (∀ r ∈ product (ts.map rows), ∀ e ∈ es, (e.truth ((Scope.ofTables ts).value r)).isSome) →
      (op.yield fs).error = none

variable {fs : Files} {rows : Table → List Row} {ts : List Table} {t : Table} {cs ds : List Expr}

theorem width_product (h : ∀ t ∈ ts, ∀ r ∈ rows t, r.width = t.columns.length) {r : Row}
    (hr : r ∈ product (ts.map rows)) : r.width = widthOf (scopeTables ts) := by
  induction ts generalizing r with
  | nil => rw [List.mem_singleton.mp hr]; rfl
  | cons t ts ih =>
    obtain ⟨a, ha, hr⟩ := List.mem_flatMap.mp hr
    obtain ⟨b, hb, rfl⟩ := List.mem_map.mp hr
    rw [Row.width_append, ih (fun u hu => h u (List.mem_cons_of_mem _ hu)) hb, scopeTables,
      scopeTables, List.map_cons, widthOf_cons, width_ofTable, h t (List.mem_cons_self ..) a ha]

theorem Gives.mem_product (h : Gives fs rows ts cs op) {r : Row} (hr : r ∈ (op.yield fs).rows) :
    r ∈ product (ts.map rows) :=
  List.mem_of_mem_filter (h.agrees.1.subset hr)

theorem Gives.scan (h : Holds fs t (rows t)) : Gives fs rows [t] [] (.scan t) where
  reads _ hu := hu
  agrees := by
    have hall : (rows t).filter (accepted (.ofTables [t]) []) = rows t :=
      List.filter_eq_self.mpr fun _ _ => rfl
    rw [List.map_singleton, product_singleton, hall, Operator.yield, h.read]
    exact Yield.agrees_ofList (rows t)
  evaluates _ _ := by
    rw [Operator.yield, h.read]
    rfl

theorem Gives.filter (h : Gives fs rows ts cs op) (ht : Tests (.ofTables ts) ds on) :
    Gives fs rows ts (cs ++ ds) (.filter op on) where
  reads := h.reads
  agrees := by
    have hfilter : ((product (ts.map rows)).filter (accepted (.ofTables ts) cs)).filter
        (accepted (.ofTables ts) ds) =
          (product (ts.map rows)).filter (accepted (.ofTables ts) (cs ++ ds)) := by
      rw [List.filter_filter]
      refine List.filter_congr ?_
      intro r _
      rw [accepted_append, Bool.and_comm]
    exact hfilter ▸ h.agrees.tested fun r _ => ht.accepts r
  evaluates hne hdef := by
    have hcs := h.evaluates hne fun r hr e he => hdef r hr e (List.mem_append_left _ he)
    refine Yield.bind_error.mpr ⟨hcs, fun r hr => tested_error.mpr ?_⟩
    exact (ht.evaluates r).mpr fun e he =>
      hdef r (h.mem_product hr) e (List.mem_append_right _ he)

/-! ### Pairs -/

theorem product_map_concat (rows : Table → List Row) (ts : List Table) (t : Table) :
    product ((ts ++ [t]).map rows) =
      (product (ts.map rows)).flatMap fun a => (rows t).map a.append := by
  rw [List.map_append, List.map_singleton, product_concat]

theorem scopeTables_concat (ts : List Table) (t : Table) :
    scopeTables (ts ++ [t]) = scopeTables ts ++ scopeTables [t] :=
  List.map_append

/-- What is said about the left side of a pair is said about the pair. -/
theorem truth_pair_left (hreg : Regular (scopeTables (ts ++ [t])))
    (hfit : ∀ e ∈ cs, Fits (scopeTables (ts ++ [t])) e)
    (hcs : ∀ e ∈ cs, Concerns (scopeTables ts) e) (hrows : ∀ u ∈ ts, Holds fs u (rows u)) :
    ∀ a ∈ product (ts.map rows), ∀ b, ∀ e ∈ cs,
      e.truth ((Scope.ofTables (ts ++ [t])).value (a.append b)) =
        e.truth ((Scope.ofTables ts).value a) := by
  intro a ha b e he
  rw [scopeTables_concat] at hreg hfit
  have hscope : Scope.ofTables (ts ++ [t]) = .joined (scopeTables ts ++ scopeTables [t]) :=
    congrArg Scope.joined (scopeTables_concat ts t)
  rw [hscope]
  have hleft : a.width = widthOf (scopeTables ts) :=
    width_product (fun u hu => (hrows u hu).width) ha
  exact truth_append_left hreg (hfit e he) (hcs e he) hleft b

/-- What is said about the right side of a pair is said about the pair. -/
theorem truth_pair_right (hreg : Regular (scopeTables (ts ++ [t])))
    (hfit : ∀ e ∈ ds, Fits (scopeTables (ts ++ [t])) e)
    (hds : ∀ e ∈ ds, Concerns (scopeTables [t]) e) (hrows : ∀ u ∈ ts ++ [t], Holds fs u (rows u)) :
    ∀ a ∈ product (ts.map rows), ∀ b ∈ rows t, ∀ e ∈ ds,
      e.truth ((Scope.ofTables (ts ++ [t])).value (a.append b)) =
        e.truth ((Scope.ofTables [t]).value b) := by
  intro a ha b hb e he
  rw [scopeTables_concat] at hreg hfit
  have hscope : Scope.ofTables (ts ++ [t]) = .joined (scopeTables ts ++ scopeTables [t]) :=
    congrArg Scope.joined (scopeTables_concat ts t)
  have hleft : a.width = widthOf (scopeTables ts) :=
    width_product (fun u hu => (hrows u (List.mem_append_left _ hu)).width) ha
  have hright : b.width = widthOf (scopeTables [t]) := by
    rw [← product_singleton (rows t), ← List.map_singleton] at hb
    exact width_product (fun u hu => (hrows u (List.mem_append_right _ hu)).width) hb
  rw [hscope]
  exact truth_append_right hreg (hfit e he) (hds e he) hleft hright

section Join

variable {l r : Operator}
  (hl : Gives fs rows ts cs l) (hr : Gives fs rows [t] ds r)
  (hon : Tests (.ofTables (ts ++ [t])) es on)
  (hleft : ∀ a ∈ product (ts.map rows), ∀ b, ∀ e ∈ cs,
    e.truth ((Scope.ofTables (ts ++ [t])).value (a.append b)) =
      e.truth ((Scope.ofTables ts).value a))
  (hright : ∀ a ∈ product (ts.map rows), ∀ b ∈ rows t, ∀ e ∈ ds,
    e.truth ((Scope.ofTables (ts ++ [t])).value (a.append b)) =
      e.truth ((Scope.ofTables [t]).value b))

include hl hr hon hleft hright

/-- The pairs that a join hands out are the ones that pass all conditions. -/
theorem Gives.join_agrees : ((Operator.join l r on).yield fs).Agrees
    ((product ((ts ++ [t]).map rows)).filter
      (accepted (.ofTables (ts ++ [t])) (cs ++ ds ++ es))) := by
  have hsplit : ∀ a ∈ product (ts.map rows), ∀ b ∈ rows t,
      accepted (.ofTables (ts ++ [t])) (cs ++ ds ++ es) (a.append b) =
        (accepted (.ofTables ts) cs a && accepted (.ofTables [t]) ds b &&
          accepted (.ofTables (ts ++ [t])) es (a.append b)) := by
    intro a ha b hb
    rw [accepted_append, accepted_append, accepted_congr (hleft a ha b),
      accepted_congr (hright a ha b hb)]
  have hjoin := hl.agrees.join hr.agrees fun a _ b _ => hon.accepts (a.append b)
  rw [List.map_singleton, product_singleton] at hjoin
  rw [product_map_concat, ← filter_pairs hsplit]
  exact hjoin

/-- A join does not fail if its conditions can be evaluated on each pair.  The conditions tested on
the left are about pairs only because the right table is not empty. -/
theorem Gives.join_error (hne : ∀ u ∈ ts ++ [t], rows u ≠ [])
    (hdef : ∀ a ∈ product (ts.map rows), ∀ b ∈ rows t, ∀ e ∈ cs ++ ds ++ es,
      (e.truth ((Scope.ofTables (ts ++ [t])).value (a.append b))).isSome) :
    ((Operator.join l r on).yield fs).error = none := by
  refine Yield.bind_error.mpr ⟨?_, ?_⟩
  · obtain ⟨b, hb⟩ := List.exists_mem_of_ne_nil _
      (hne t (List.mem_append_right _ (List.mem_singleton_self t)))
    refine hl.evaluates (fun u hu => hne u (List.mem_append_left _ hu)) ?_
    intro a ha e he
    rw [← hleft a ha b e he]
    exact hdef a ha b hb e (List.mem_append_left _ (List.mem_append_left _ he))
  · intro a ha
    have ha' := hl.mem_product ha
    refine Yield.bind_error.mpr ⟨?_, ?_⟩
    · refine hr.evaluates (fun u hu => hne u (List.mem_append_right _ hu)) ?_
      intro b hb e he
      rw [List.map_singleton, product_singleton] at hb
      rw [← hright a ha' b hb e he]
      exact hdef a ha' b hb e (List.mem_append_left _ (List.mem_append_right _ he))
    · intro b hb
      have hb' := hr.mem_product hb
      rw [List.map_singleton, product_singleton] at hb'
      rw [tested_error, hon.evaluates]
      exact fun e he => hdef a ha' b hb' e (List.mem_append_right _ he)

end Join

/-- What a join adds: pairs of a combination on the left and a row of the right table. -/
theorem Gives.join {l r : Operator} (hl : Gives fs rows ts cs l) (hr : Gives fs rows [t] ds r)
    (hon : Tests (.ofTables (ts ++ [t])) es on) (hreg : Regular (scopeTables (ts ++ [t])))
    (hfit : ∀ e ∈ cs ++ ds, Fits (scopeTables (ts ++ [t])) e)
    (hcs : ∀ e ∈ cs, Concerns (scopeTables ts) e) (hds : ∀ e ∈ ds, Concerns (scopeTables [t]) e)
    (hrows : ∀ u ∈ ts ++ [t], Holds fs u (rows u)) :
    Gives fs rows (ts ++ [t]) (cs ++ ds ++ es) (.join l r on) := by
  have hleft := truth_pair_left hreg (fun e he => hfit e (List.mem_append_left _ he)) hcs
    fun u hu => hrows u (List.mem_append_left _ hu)
  have hright := truth_pair_right hreg (fun e he => hfit e (List.mem_append_right _ he)) hds hrows
  refine ⟨?_, hl.join_agrees hr hon hleft hright, ?_⟩
  · intro u hu
    rcases List.mem_append.mp hu with hu | hu
    · exact List.mem_append_left _ (hl.reads u hu)
    · exact List.mem_append_right _ (hr.reads u hu)
  · intro hne hdef
    rw [product_map_concat] at hdef
    refine hl.join_error hr hon hleft hright hne ?_
    intro a ha b hb
    exact hdef _ (List.mem_flatMap.mpr ⟨a, ha, List.mem_map_of_mem hb⟩)

/-! ### The steps of a plan -/

/-- That a plan over some tables is made of operators that give what the conditions let through. -/
structure Answers (fs : Files) (rows : Table → List Row) (ts : List Table) (es : List Expr)
    (p : Plan) : Prop where
  tables : p.tables = ts
  gives : ∃ op, p.bound = .ok op ∧ Gives fs rows ts es op

theorem regular_scopeTables (h : (ts.map fun t => Name.canonical t.name).Nodup) :
    Regular (scopeTables ts) where
  name u hu := by
    obtain ⟨t, -, rfl⟩ := List.mem_map.mp hu
    exact Name.canonical_canonical t.name
  column u hu c hc := by
    obtain ⟨t, -, rfl⟩ := List.mem_map.mp hu
    obtain ⟨d, -, rfl⟩ := List.mem_map.mp hc
    exact Name.canonical_canonical d
  nodup := by
    rw [map_name_ofTable]
    exact h

/-- That a plan over some tables has taken some conjuncts, each where its tables are joined. -/
inductive Pushed : List Table → List Expr → Plan → Prop
  /-- A table under conjuncts about it alone. -/
  | selection {t : Table} {es : List Expr} (hreg : Regular (scopeTables [t]))
      (hfit : ∀ e ∈ es, Fits (scopeTables [t]) e) : Pushed [t] es (selection t es)
  /-- A join with one table more takes conjuncts about all tables so far. -/
  | join {ts : List Table} {t : Table} {cs ds es : List Expr} {p q : Plan} (hp : Pushed ts cs p)
      (hq : Pushed [t] ds q) (hreg : Regular (scopeTables (ts ++ [t])))
      (hfit : ∀ e ∈ cs ++ ds ++ es, Fits (scopeTables (ts ++ [t])) e)
      (hcs : ∀ e ∈ cs, Concerns (scopeTables ts) e)
      (hds : ∀ e ∈ ds, Concerns (scopeTables [t]) e) :
      Pushed (ts ++ [t]) (cs ++ ds ++ es) (.join p q (Expr.conjunction? es))
  /-- So does a filter. -/
  | filter {ts : List Table} {cs es : List Expr} {p : Plan} {e : Expr} (hp : Pushed ts cs p)
      (hreg : Regular (scopeTables ts)) (hfit : ∀ e ∈ es, Fits (scopeTables ts) e)
      (hc : Expr.conjunction? es = some e) : Pushed ts (cs ++ es) (.filter p e)

/-- A plan that has taken conjuncts can be bound, and its operators give what the conjuncts let
through. -/
theorem Pushed.gives {p : Plan} (h : Pushed ts cs p) : p.tables = ts ∧ ∃ op, p.bound = .ok op ∧
    ∀ {fs : Files} {rows : Table → List Row}, (∀ t ∈ ts, Holds fs t (rows t)) →
      Gives fs rows ts cs op := by
  induction h with
  | @selection t es hreg hfit =>
    unfold Plan.selection
    split
    · rename_i e hc
      obtain ⟨on, hon, htests⟩ := exists_bind_single hreg hfit hc
      have hbind : (Scope.ofTable t).bind? (some e) = .ok (some on) :=
        bind_eq_ok_iff.mpr ⟨on, hon, rfl⟩
      refine ⟨rfl, .filter (.scan t) (some on), ?_, fun hrows => ?_⟩
      · simp only [bound, hbind, ok_bind, pure_eq_ok]
      · exact (Gives.scan (hrows t (List.mem_singleton_self t))).filter htests
    · rename_i hc
      cases es with
      | nil => exact ⟨rfl, .scan t, rfl, fun hrows => .scan (hrows t (List.mem_singleton_self t))⟩
      | cons e es => cases hc
  | @join ts t cs ds es p q hp hq hreg hfit hcs hds ihp ihq =>
    obtain ⟨htp, l, hl, hgl⟩ := ihp
    obtain ⟨htq, r, hr, hgr⟩ := ihq
    obtain ⟨on, hon, htests⟩ := exists_bind_conjunction hreg fun e he =>
      hfit e (List.mem_append_right _ he)
    -- the join binds its columns in the tables of both sides, which are those joined so far
    have htables : p.tables ++ q.tables = ts ++ [t] := by rw [htp, htq]
    have hon' : (Scope.ofTables (p.tables ++ q.tables)).bind? (Expr.conjunction? es) = .ok on :=
      htables.symm ▸ hon
    refine ⟨htables, .join l r on, ?_, fun hrows => ?_⟩
    · simp only [bound, hl, hr, hon', ok_bind, pure_eq_ok]
    · obtain ⟨hleft, hright⟩ := List.forall_mem_append.mp hrows
      exact (hgl hleft).join (hgr hright) htests hreg
        (fun e he => hfit e (List.mem_append_left _ he)) hcs hds hrows
  | @filter ts cs es p e hp hreg hfit hc ih =>
    obtain ⟨htables, op, hop, hgives⟩ := ih
    obtain ⟨on, hon, htests⟩ := exists_bind_conjunction hreg hfit
    rw [hc] at hon
    have hon' : (Scope.ofTables p.tables).bind? (some e) = .ok on := htables.symm ▸ hon
    refine ⟨htables, .filter op on, ?_, fun hrows => (hgives hrows).filter htests⟩
    simp only [bound, hop, hon', ok_bind, pure_eq_ok]

/-! ### All tables -/

/-- That each of some plans has taken conjuncts about its table, all conjuncts taken together. -/
inductive Inputs : List (Table × Plan) → List Expr → Prop
  | nil : Inputs [] []
  | cons {t : Table} {p : Plan} {ds es : List Expr} {rest : List (Table × Plan)}
      (hp : Pushed [t] ds p) (hds : ∀ e ∈ ds, Concerns (scopeTables [t]) e)
      (hrest : Inputs rest es) : Inputs ((t, p) :: rest) (ds ++ es)

theorem mem_pending_iff_take (p : Expr → Bool) (c : Conjuncts) (e : Expr) :
    e ∈ c.pending ↔ e ∈ (c.take p).1 ∨ e ∈ (c.take p).2.pending := by
  simp only [Conjuncts.take, List.mem_filter, Bool.not_eq_true']
  cases p e <;> simp

section Taking

variable {F : List ScopeTable} {c c' : Conjuncts} {taken : List Expr}

theorem concerns_of_takeTable (hreg : Regular F) (hfit : ∀ e ∈ c.pending, Fits F e)
    (h : c.takeTable t.name = (taken, c')) :
    (∀ e ∈ taken, e ∈ c.pending ∧ Concerns (scopeTables [t]) e) ∧
      ∀ e, e ∈ c.pending ↔ e ∈ taken ∨ e ∈ c'.pending := by
  refine ⟨fun e he => ?_, fun e => ?_⟩
  · cases h
    obtain ⟨he, hm⟩ := List.mem_filter.mp he
    exact ⟨he, concerns_of_mentionsOnly (t := .ofTable t) hreg (hfit e he) hm⟩
  · have hiff := mem_pending_iff_take (Conjuncts.mentionsOnly (Name.canonical t.name)) c e
    cases h
    exact hiff

theorem concerns_of_takeJoin (hreg : Regular F) (hfit : ∀ e ∈ c.pending, Fits F e)
    (h : c.takeJoin (ts.map (·.name)) t.name = (taken, c')) :
    (∀ e ∈ taken, e ∈ c.pending ∧ Concerns (scopeTables (ts ++ [t])) e) ∧
      ∀ e, e ∈ c.pending ↔ e ∈ taken ∨ e ∈ c'.pending := by
  refine ⟨fun e he => ?_, fun e => ?_⟩
  · cases h
    obtain ⟨he, hm⟩ := List.mem_filter.mp he
    refine ⟨he, ?_⟩
    rw [scopeTables, List.map_append]
    refine concerns_of_connects (t := .ofTable t) hreg (hfit e he) ?_
    rw [List.map_map] at hm ⊢
    exact hm
  · have hiff := mem_pending_iff_take
      (Conjuncts.connects ((ts.map (·.name)).map Name.canonical) (Name.canonical t.name)) c e
    cases h
    exact hiff

end Taking

theorem inputs_selections {all : List Table} (hreg : Regular (scopeTables all)) {c : Conjuncts}
    (hfit : ∀ e ∈ c.pending, Fits (scopeTables all) e) (hts : ∀ t ∈ ts, t ∈ all) :
    ∃ es, Inputs (selections c ts).1 es ∧
      ∀ e, e ∈ c.pending ↔ e ∈ es ∨ e ∈ (selections c ts).2.pending := by
  induction ts generalizing c with
  | nil => exact ⟨[], .nil, fun e => by simp [selections]⟩
  | cons t ts ih =>
    rcases htake : c.takeTable t.name with ⟨taken, c'⟩
    obtain ⟨hconcerns, hmem⟩ := concerns_of_takeTable hreg hfit htake
    obtain ⟨es, hes, hiff⟩ := ih (c := c') (fun e he => hfit e ((hmem e).mpr (.inr he)))
      fun u hu => hts u (List.mem_cons_of_mem _ hu)
    have ht : ScopeTable.ofTable t ∈ scopeTables all :=
      List.mem_map_of_mem (hts t (List.mem_cons_self ..))
    have hselection : Pushed [t] taken (selection t taken) :=
      .selection (hreg.of_mem ht) fun e he =>
        (hfit e (hconcerns e he).1).of_mem hreg ht (hconcerns e he).2
    simp only [selections, htake]
    refine ⟨taken ++ es, .cons hselection (fun e he => (hconcerns e he).2) hes, ?_⟩
    intro e
    rw [hmem e, List.mem_append, or_assoc]
    exact or_congr_right (hiff e)

theorem pushed_joins {ins : List (Table × Plan)} (hins : Inputs ins es) {p : Plan}
    {c : Conjuncts} (hp : Pushed ts cs p) (hcs : ∀ e ∈ cs, Concerns (scopeTables ts) e)
    (hreg : Regular (scopeTables (ts ++ ins.map (·.1))))
    (hfit : ∀ e, e ∈ cs ∨ e ∈ es ∨ e ∈ c.pending → Fits (scopeTables (ts ++ ins.map (·.1))) e) :
    ∃ cs', Pushed (ts ++ ins.map (·.1)) cs' (joins (ts.map (·.name)) p c ins).1 ∧
      ∀ e, (e ∈ cs ∨ e ∈ es ∨ e ∈ c.pending) ↔
        (e ∈ cs' ∨ e ∈ (joins (ts.map (·.name)) p c ins).2.pending) := by
  induction hins generalizing ts cs p c with
  | nil =>
    rw [List.map_nil, List.append_nil]
    exact ⟨cs, hp, fun e => by simp [joins]⟩
  | @cons t q ds es rest hq hds hrest ih =>
    rw [List.map_cons, List.append_cons] at hreg hfit ⊢
    rcases htake : c.takeJoin (ts.map (·.name)) t.name with ⟨taken, c'⟩
    obtain ⟨hconcerns, hmem⟩ := concerns_of_takeJoin hreg
      (fun e he => hfit e (.inr (.inr he))) htake
    have hsame : ∀ e, (e ∈ cs ∨ e ∈ ds ++ es ∨ e ∈ c.pending) ↔
        (e ∈ cs ++ ds ++ taken ∨ e ∈ es ∨ e ∈ c'.pending) := by
      intro e
      simp only [hmem e, List.mem_append]
      tauto
    -- the conjuncts of both inputs and of the join itself are about the tables joined so far
    have htables : scopeTables (ts ++ [t]) = scopeTables ts ++ scopeTables [t] := List.map_append
    have hall : ∀ e ∈ cs ++ ds ++ taken, Concerns (scopeTables (ts ++ [t])) e := by
      intro e he
      rcases List.mem_append.mp he with he | he
      · rcases List.mem_append.mp he with he | he
        · exact (hcs e he).mono (htables ▸ List.subset_append_left _ _)
        · exact (hds e he).mono (htables ▸ List.subset_append_right _ _)
      · exact (hconcerns e he).2
    have hfront : scopeTables (ts ++ [t] ++ rest.map (·.1)) =
        scopeTables (ts ++ [t]) ++ scopeTables (rest.map (·.1)) := List.map_append
    have hfit' : ∀ e ∈ cs ++ ds ++ taken, Fits (scopeTables (ts ++ [t])) e := fun e he =>
      (hfront ▸ hfit e ((hsame e).mpr (.inl he))).of_append (hfront ▸ hreg) (hall e he)
    have hreg' : Regular (scopeTables (ts ++ [t])) :=
      @Regular.segment _ [] _ (hfront ▸ hreg)
    have hstep : Pushed (ts ++ [t]) (cs ++ ds ++ taken) (.join p q (Expr.conjunction? taken)) :=
      .join hp hq hreg' hfit' hcs hds
    obtain ⟨cs', hcs', hiff⟩ := ih (c := c') hstep hall hreg
      fun e he => hfit e ((hsame e).mpr he)
    rw [List.map_append] at hcs' hiff
    simp only [joins, htake]
    exact ⟨cs', hcs', fun e => (hsame e).trans (hiff e)⟩

/-- The conjuncts that a condition is split into are in full, and test together what it does. -/
theorem tests_ofCondition (hreg : Regular (scopeTables ts)) {e q : Expr}
    (h : (Scope.ofTables ts).qualifyExpr e = .ok q) :
    (∀ c ∈ q.conjuncts, Fits (scopeTables ts) c) ∧ ∃ on, (Scope.ofTables ts).bind e = .ok on ∧
      ∀ es, (∀ c, c ∈ q.conjuncts ↔ c ∈ es) → Tests (.ofTables ts) es (some on) := by
  refine ⟨((Expr.conjunctive_columns _).iff_conjuncts q).mp (fits_of_qualifyExpr h), ?_⟩
  obtain ⟨on, hon⟩ := exists_bind_of_qualifyExpr h
  refine ⟨on, hon, ?_⟩
  intro es hes
  refine tests_of_bind hon (truth_qualifyExpr hreg h) ?_
  intro P hP
  rw [hP.iff_conjuncts]
  exact forall_congr' fun c => by rw [hes c]

theorem pushed_remaining {p : Plan} {c : Conjuncts} (hp : Pushed ts cs p)
    (hreg : Regular (scopeTables ts)) (hfit : ∀ e ∈ c.pending, Fits (scopeTables ts) e) :
    Pushed ts (cs ++ c.pending) (remaining p c) := by
  have hall : c.takeAll.1 = c.pending := List.filter_eq_self.mpr fun _ _ => rfl
  unfold remaining
  rw [hall]
  split
  · rename_i e he
    exact hp.filter hreg hfit he
  · rename_i he
    cases hc : c.pending with
    | nil => rwa [List.append_nil]
    | cons e es =>
      rw [hc] at he
      cases he

theorem pushed_base {condition : Option Expr} {p : Plan} (hreg : Regular (scopeTables ts))
    (h : base ts condition = .ok p) :
    ∃ es on, Pushed ts es p ∧ (Scope.ofTables ts).bind? condition = .ok on ∧
      Tests (.ofTables ts) es on := by
  obtain ⟨q, hq, t, input, rest, c, hs, rfl⟩ := exists_of_base h
  have hcondition : (∀ e ∈ (Conjuncts.ofCondition q).pending, Fits (scopeTables ts) e) ∧
      ∃ on, (Scope.ofTables ts).bind? condition = .ok on ∧
        ∀ es, (∀ e, e ∈ (Conjuncts.ofCondition q).pending ↔ e ∈ es) →
          Tests (.ofTables ts) es on := by
    rcases hq with ⟨rfl, rfl⟩ | ⟨e, q', rfl, rfl, hq⟩
    · refine ⟨fun e he => absurd he List.not_mem_nil, none, rfl, ?_⟩
      intro es hes
      cases es with
      | nil => exact tests_none _
      | cons e es => exact absurd ((hes e).mpr (List.mem_cons_self ..)) List.not_mem_nil
    · obtain ⟨hfit, on, hon, htests⟩ := tests_ofCondition hreg hq
      exact ⟨hfit, some on, bind_eq_ok_iff.mpr ⟨on, hon, rfl⟩, htests⟩
  obtain ⟨hfit, on, hon, htests⟩ := hcondition
  obtain ⟨taken, hinputs, htaken⟩ := inputs_selections hreg hfit fun _ ht => ht
  have hmap := (eachOver_selections (.ofCondition q) ts).2
  rw [hs] at hmap hinputs htaken
  obtain rfl : ts = [t] ++ rest.map (·.1) := hmap.symm
  cases hinputs with
  | @cons _ _ ds es _ hp hds hrest =>
    have hmem : ∀ e, e ∈ (Conjuncts.ofCondition q).pending ↔ e ∈ ds ∨ e ∈ es ∨ e ∈ c.pending :=
      fun e => by rw [htaken e, List.mem_append, or_assoc]
    obtain ⟨cs, hcs, hiff⟩ := pushed_joins hrest hp hds hreg
      fun e he => hfit e ((hmem e).mpr he)
    have hleft : ∀ e ∈ (joins [t.name] input c rest).2.pending,
        Fits (scopeTables ([t] ++ rest.map (·.1))) e := fun e he =>
      hfit e ((hmem e).mpr ((hiff e).mpr (.inr he)))
    refine ⟨_, on, pushed_remaining hcs hreg hleft, hon, htests _ ?_⟩
    intro e
    rw [hmem e, hiff e, List.mem_append]
    rfl

theorem answers_base {condition : Option Expr} {p : Plan} (hreg : Regular (scopeTables ts))
    (hrows : ∀ t ∈ ts, Holds fs t (rows t)) (h : base ts condition = .ok p) :
    ∃ es on, Answers fs rows ts es p ∧ (Scope.ofTables ts).bind? condition = .ok on ∧
      Tests (.ofTables ts) es on := by
  obtain ⟨es, on, hpushed, hon, htests⟩ := pushed_base hreg h
  obtain ⟨htables, op, hop, hgives⟩ := hpushed.gives
  exact ⟨es, on, ⟨htables, op, hop, hgives hrows⟩, hon, htests⟩

theorem Holds.opens {ts : List Row} (h : Holds fs t ts) : ∃ s, openTable fs t = .ok s :=
  opens_of_tableRows (congrArg Yield.error h.read)

/-- **Pushing down is selecting.**  The plan for FROM and WHERE, set up and run to its end, hands
out the combinations of rows of the tables that pass the whole condition, in the order of the
tables.  If a condition cannot be evaluated it hands out the first of them, and that happens only if
the whole condition fails on some combination or a table is empty. -/
theorem drain_base {fs : Files} {rows : Table → List Row} {tables : List Table}
    {condition : Option Expr} {plan : Plan}
    (hnames : (tables.map fun t => Name.canonical t.name).Nodup)
    (hrows : ∀ t ∈ tables, Holds fs t (rows t)) (hplan : base tables condition = .ok plan) :
    ∃ c on, plan.instantiate fs = .ok c ∧
      (Scope.ofTables tables).bind? condition = .ok on ∧
      ((c.drain fs).2.1 = none → (c.drain fs).1 =
        (product (tables.map rows)).filter fun r => Term.passes on r = .ok true) ∧
      (c.drain fs).1 <+:
        ((product (tables.map rows)).filter fun r => Term.passes on r = .ok true) ∧
      ((∀ t ∈ tables, rows t ≠ []) →
        (∀ r ∈ product (tables.map rows), ∃ b, Term.passes on r = .ok b) →
          (c.drain fs).2.1 = none) := by
  obtain ⟨es, on, ⟨-, op, hbound, hgives⟩, hon, htests⟩ :=
    answers_base (regular_scopeTables hnames) hrows hplan
  obtain ⟨s, hs⟩ := op.exists_start fun t ht => (hrows t (hgives.reads t ht)).opens
  have hdrain : (⟨((Cursor.mk op s).drain fs).1, ((Cursor.mk op s).drain fs).2.1⟩ : Yield) =
      op.yield fs := Cursor.drain_of_start hs
  have hfilter : (product (tables.map rows)).filter (accepted (.ofTables tables) es) =
      (product (tables.map rows)).filter fun r => Term.passes on r = .ok true :=
    List.filter_congr fun r _ => by
      rw [Bool.eq_iff_iff, ← htests.accepts, decide_eq_true_iff]
  have hagrees := hgives.agrees
  rw [← hdrain, hfilter] at hagrees
  refine ⟨⟨op, s⟩, on, instantiate_of_bound hbound hs, hon, hagrees.2, hagrees.1, ?_⟩
  intro hne hdef
  have herror := hgives.evaluates hne fun r hr => (htests.evaluates r).mp (hdef r hr)
  rwa [← hdrain] at herror

def sampleRows (t : Table) : List Row :=
  if t = Sample.pupils then [⟨["1", "14"]⟩, ⟨["2", "15"]⟩]
  else [⟨["1", "3"]⟩, ⟨["2", "1"]⟩, ⟨["1", "3"]⟩]

/-- A condition of a conjunct for the join and one for a table alone. -/
def sampleCondition : Expr :=
  .binary Sample.matching .and
    (.binary (.column { table := some "pupils", column := "Age" }) .less (.literal (.integer 15)))

/-- The plan for the condition: the second conjunct stands below the join, the first in it. -/
def samplePlan : Plan :=
  .join
    (.select (.scan Sample.pupils) Sample.pupils
      (.binary (.column { table := some "pupils", column := "age" }) .less
        (.literal (.integer 15))))
    (.scan Sample.marks)
    (some (.binary (.column { table := some "pupils", column := "id" }) .equal
      (.column { table := some "marks", column := "pupil" })))

/-- The pupils below the age of 15, with their marks. -/
theorem drain_base_sample :
    (([Sample.pupils, Sample.marks].map fun t => Name.canonical t.name).Nodup ∧
      (∀ t ∈ [Sample.pupils, Sample.marks], Holds Sample.files t (sampleRows t)) ∧
      base [Sample.pupils, Sample.marks] (some sampleCondition) = .ok samplePlan) ∧
    ∃ c on, samplePlan.instantiate Sample.files = .ok c ∧
      (Scope.ofTables [Sample.pupils, Sample.marks]).bind? (some sampleCondition) = .ok on ∧
      ((c.drain Sample.files).2.1 = none → (c.drain Sample.files).1 =
        (product ([Sample.pupils, Sample.marks].map sampleRows)).filter fun r =>
          Term.passes on r = .ok true) ∧
      (c.drain Sample.files).1 <+:
        ((product ([Sample.pupils, Sample.marks].map sampleRows)).filter fun r =>
          Term.passes on r = .ok true) ∧
      ((∀ t ∈ [Sample.pupils, Sample.marks], sampleRows t ≠ []) →
        (∀ r ∈ product ([Sample.pupils, Sample.marks].map sampleRows),
          ∃ b, Term.passes on r = .ok b) → (c.drain Sample.files).2.1 = none) := by
  have hnames : ([Sample.pupils, Sample.marks].map fun t => Name.canonical t.name).Nodup := by
    decide +kernel
  have hpupils : Holds Sample.files Sample.pupils (sampleRows Sample.pupils) := ⟨rfl, by decide⟩
  have hmarks : Holds Sample.files Sample.marks (sampleRows Sample.marks) := ⟨rfl, by decide⟩
  have hrows : ∀ t ∈ [Sample.pupils, Sample.marks], Holds Sample.files t (sampleRows t) :=
    List.forall_mem_cons.mpr ⟨hpupils, List.forall_mem_cons.mpr ⟨hmarks, fun _ h => nomatch h⟩⟩
  have hplan : base [Sample.pupils, Sample.marks] (some sampleCondition) = .ok samplePlan := rfl
  exact ⟨⟨hnames, hrows, hplan⟩, drain_base hnames hrows hplan⟩

end FlatQuery.Plan
