import FlatQuery.Proofs.Plan.Base
import FlatQuery.Proofs.Plan.Conjuncts
import FlatQuery.Proofs.Plan.Pushdown

/-!
# Where the conjuncts of WHERE stand

Each conjunct belongs to one site of a plan (`siteOf`): above the scan of the only table that it
names, above the first scan if it names none, and otherwise at the join of the last table that it
names.  The plan for FROM and WHERE has each conjunct at its site and nothing else
(`conjuncts_placed`).

The sites are gone through in turn, and the invariant is that the conjuncts still waiting are those
of the sites that have not been visited (`waiting`); a request at a site takes from them just the
conjuncts of that site (`take_waiting`).
-/

namespace FlatQuery.Plan

open Rows
open Name (canonical)

/-! ### Sites -/

/-- Where a predicate can stand in a plan: above the scan of a table, or at the join that has the table
on its right. -/
inductive Site where
  | above (t : Table)
  | joining (t : Table)
  deriving DecidableEq

/-- The tables of a FROM list that a conjunct names. -/
def named (ts : List Table) (e : Expr) : List Table :=
  ts.filter fun t => e.tables.contains (canonical t.name)

/-- The site that a conjunct belongs to: above the scan of the only table that it names, or of the
first one if it names none, and otherwise at the join of the last table that it names. -/
def siteOf (first : Table) (ts : List Table) (e : Expr) : Site :=
  match named ts e with
  | [] => .above first
  | [t] => .above t
  | _ :: t :: more => .joining ((t :: more).getLast (List.cons_ne_nil t more))

/-- The sites of a plan that joins tables from left to right. -/
def sites (first : Table) (rest : List Table) : List Site :=
  (first :: rest).map .above ++ rest.map .joining

/-- The conjuncts of a site, in the order of the condition. -/
def held (first : Table) (ts : List Table) (cs : List Expr) (s : Site) : List Expr :=
  cs.filter (siteOf first ts · == s)

/-- A plan with one table joined more, and conjuncts at its sites. -/
def joinedTo (es : Site → List Expr) (p : Plan) (t : Table) : Plan :=
  .join p (selection t (es (.above t))) (Expr.conjunction? (es (.joining t)))

/-- The plan that joins tables from left to right, with conjuncts at its sites and no filter. -/
def arranged (es : Site → List Expr) (first : Table) (rest : List Table) : Plan :=
  rest.foldl (joinedTo es) (selection first (es (.above first)))

variable {first t : Table} {ts front back : List Table} {e : Expr}

theorem mem_named : t ∈ named ts e ↔ t ∈ ts ∧ e.Mentions t.name := by
  simp only [named, List.mem_filter, List.contains_iff_mem, Expr.canonical_mem_tables_iff]

theorem named_append : named (front ++ back) e = named front e ++ named back e :=
  List.filter_append _ _

theorem siteOf_eq_above_iff :
    siteOf first ts e = .above t ↔ named ts e = [t] ∨ named ts e = [] ∧ first = t := by
  unfold siteOf
  split
  · next h => simp [h]
  · next u h => simp [h]
  · next u v more h => simp [h]

/-! ### Names that differ -/

/-- That an expression names only tables of a list. -/
def Covers (ts : List Table) (e : Expr) : Prop :=
  ∀ name, e.Mentions name → ∃ t ∈ ts, canonical t.name = canonical name

/-- That the names of tables differ, however they are spelled. -/
abbrev Distinct (ts : List Table) : Prop :=
  (ts.map fun t => canonical t.name).Nodup

theorem Distinct.eq_of_name (hd : Distinct ts) {u : Table} (ht : t ∈ ts) (hu : u ∈ ts)
    (h : canonical t.name = canonical u.name) : t = u :=
  List.inj_on_of_nodup_map hd ht hu h

theorem Distinct.nodup (hd : Distinct ts) : ts.Nodup :=
  List.Nodup.of_map _ hd

theorem Distinct.notMem (hd : Distinct (front ++ t :: back)) : t ∉ front ∧ t ∉ back := by
  have hnodup := hd.nodup
  rw [List.nodup_middle, List.nodup_cons, List.mem_append, not_or] at hnodup
  exact hnodup.1

/-- A conjunct is about a table alone if it names that table at most. -/
theorem mentionsOnly_iff_named (hd : Distinct ts) (hc : Covers ts e) (ht : t ∈ ts) :
    Conjuncts.mentionsOnly (canonical t.name) e = true ↔ named ts e = [] ∨ named ts e = [t] := by
  have hnodup : (named ts e).Nodup := hd.nodup.filter _
  have hall : Conjuncts.mentionsOnly (canonical t.name) e = true ↔ ∀ u ∈ named ts e, u = t := by
    rw [Conjuncts.mentionsOnly_iff]
    constructor
    · intro h u hu
      obtain ⟨hu, hnames⟩ := mem_named.mp hu
      exact hd.eq_of_name hu ht (h u.name hnames)
    · intro h name hname
      obtain ⟨u, hu, hcanonical⟩ := hc name hname
      obtain ⟨c, hcol, q, hq, hqname⟩ := hname
      have hu' := h u (mem_named.mpr ⟨hu, c, hcol, q, hq, hqname.trans hcanonical.symm⟩)
      rw [← hcanonical, hu']
  rw [hall]
  constructor
  · intro h
    cases hnamed : named ts e with
    | nil => exact .inl rfl
    | cons u more =>
      rw [hnamed] at h hnodup
      obtain ⟨rfl, hmore⟩ := List.forall_mem_cons.mp h
      have hnil : more = [] := List.eq_nil_iff_forall_not_mem.mpr fun v hv =>
        (List.nodup_cons.mp hnodup).1 (hmore v hv ▸ hv)
      exact .inr (hnil ▸ rfl)
  · rintro (h | h)
    · rw [h]
      exact fun u hu => nomatch hu
    · rw [h]
      exact fun u hu => List.mem_singleton.mp hu

/-- A conjunct connects a table with those on its left if it names that table, and no table after
it. -/
theorem connects_iff_named (hd : Distinct (front ++ t :: back)) (hc : Covers (front ++ t :: back) e) :
    Conjuncts.connects ((front.map (·.name)).map canonical) (canonical t.name) e = true ↔
      named (front ++ t :: back) e = named front e ++ [t] := by
  have ht : t ∈ front ++ t :: back := List.mem_append_right _ (List.mem_cons_self ..)
  rw [Conjuncts.connects_iff]
  constructor
  · rintro ⟨hnames, hall⟩
    have hback : named back e = [] := by
      refine List.eq_nil_iff_forall_not_mem.mpr fun u hu => ?_
      obtain ⟨hu, hnames⟩ := mem_named.mp hu
      have hmem : u ∈ front ++ t :: back :=
        List.mem_append_right _ (List.mem_cons_of_mem _ hu)
      -- a table after it has another name than all the tables that may be named
      rcases hall u.name hnames with hname | ⟨name, hname, hcanonical⟩
      · exact hd.notMem.2 (hd.eq_of_name hmem ht hname ▸ hu)
      · obtain ⟨v, hv, rfl⟩ := List.mem_map.mp hname
        have hvu := hd.eq_of_name (List.mem_append_left _ hv) hmem hcanonical
        have hdisjoint := (List.nodup_append.mp hd.nodup).2.2 v hv u (List.mem_cons_of_mem _ hu)
        exact hdisjoint hvu
    have hself : named [t] e = [t] := by
      simpa [named, Expr.canonical_mem_tables_iff] using hnames
    rw [← List.singleton_append, named_append, named_append, hself, hback, List.append_nil]
  · intro h
    have hnamed : ∀ u, u ∈ named (front ++ t :: back) e ↔ u ∈ named front e ∨ u = t := by
      intro u
      rw [h, List.mem_append, List.mem_singleton]
    refine ⟨(mem_named.mp ((hnamed t).mpr (.inr rfl))).2, fun name hname => ?_⟩
    obtain ⟨u, hu, hcanonical⟩ := hc name hname
    obtain ⟨c, hcol, q, hq, hqname⟩ := hname
    have hmentions : e.Mentions u.name := ⟨c, hcol, q, hq, hqname.trans hcanonical.symm⟩
    rcases (hnamed u).mp (mem_named.mpr ⟨hu, hmentions⟩) with hfront | rfl
    · exact .inr ⟨u.name, List.mem_map_of_mem (mem_named.mp hfront).1, hcanonical⟩
    · exact .inl hcanonical.symm

theorem siteOf_eq_joining_iff (hd : Distinct (front ++ t :: back)) :
    siteOf first (front ++ t :: back) e = .joining t ↔
      named (front ++ t :: back) e = named front e ++ [t] ∧ named front e ≠ [] := by
  constructor
  · intro h
    unfold siteOf at h
    split at h
    · cases h
    · cases h
    · next u v more hnamed =>
      have hlast : (v :: more).getLast (List.cons_ne_nil v more) = t := Site.joining.inj h
      have ht : t ∈ named (front ++ t :: back) e := by
        rw [hnamed, ← hlast]
        exact List.mem_cons_of_mem _ (List.getLast_mem _)
      have hself : named [t] e = [t] := by
        simpa [named, Expr.canonical_mem_tables_iff] using (mem_named.mp ht).2
      have hsplit : named (front ++ t :: back) e = named front e ++ t :: named back e := by
        rw [← List.singleton_append, named_append, named_append, hself, List.singleton_append]
      -- the last table that is named is `t`, so none of those behind it is
      have hback : named back e = [] := by
        by_contra hne
        have hend : (named (front ++ t :: back) e).getLast? = some t := by
          rw [hnamed, List.getLast?_cons_cons,
            List.getLast?_eq_getLast_of_ne_nil (List.cons_ne_nil v more), hlast]
        rw [hsplit, List.getLast?_append_cons, List.getLast?_cons_of_ne_nil hne] at hend
        exact hd.notMem.2 (mem_named.mp (List.mem_of_getLast? hend)).1
      rw [hback] at hsplit
      refine ⟨hsplit, fun hnil => ?_⟩
      rw [hnil, hnamed] at hsplit
      cases hsplit
  · rintro ⟨h, hne⟩
    obtain ⟨u, more, hfront⟩ := List.exists_cons_of_ne_nil hne
    unfold siteOf
    rw [h, hfront]
    cases more with
    | nil => rfl
    | cons v more => simp

/-! ### Taking the conjuncts of a site -/

section Waiting

variable (site : Expr → Site) (cs : List Expr)

/-- The conjuncts of the sites that have not been visited. -/
def waiting (visited : List Site) : Conjuncts :=
  ⟨cs.filter fun e => !visited.contains (site e)⟩

theorem waiting_nil (c : Conjuncts) : waiting site c.pending [] = c :=
  congrArg Conjuncts.mk (List.filter_eq_self.mpr fun _ _ => rfl)

theorem take_waiting {visited : List Site} {s : Site} {p : Expr → Bool} (hs : s ∉ visited)
    (h : ∀ e ∈ cs, site e ∉ visited → (p e = true ↔ site e = s)) :
    (waiting site cs visited).take p =
      (cs.filter (site · == s), waiting site cs (visited ++ [s])) := by
  have hvisited : ∀ e, visited.contains (site e) = true ↔ site e ∈ visited :=
    fun e => List.contains_iff_mem
  simp only [waiting, Conjuncts.take, List.filter_filter]
  congr 1
  · refine List.filter_congr fun e he => ?_
    by_cases hv : site e ∈ visited
    · have hne : site e ≠ s := fun heq => hs (heq ▸ hv)
      simp [hv, hne]
    · have hiff := h e he hv
      by_cases heq : site e = s
      · simp [heq, hiff.mpr heq, hs]
      · simp [hv, heq, mt hiff.mp heq]
  · congr 1
    refine List.filter_congr fun e he => ?_
    by_cases hv : site e ∈ visited
    · simp [hv]
    · have hiff := h e he hv
      by_cases heq : site e = s
      · simp [heq, hiff.mpr heq]
      · simp [hv, heq, mt hiff.mp heq]

theorem pending_waiting_eq_nil {visited : List Site} (h : ∀ e ∈ cs, site e ∈ visited) :
    (waiting site cs visited).pending = [] := by
  refine List.filter_eq_nil_iff.mpr fun e he => ?_
  rw [List.contains_iff_mem.mpr (h e he)]
  exact Bool.false_ne_true

theorem perm_flatMap_filter {visited : List Site} (hnodup : visited.Nodup)
    (h : ∀ e ∈ cs, site e ∈ visited) :
    (visited.flatMap fun s => cs.filter (site · == s)).Perm cs := by
  induction visited generalizing cs with
  | nil =>
    rw [List.eq_nil_iff_forall_not_mem.mpr fun e he => List.not_mem_nil (h e he), List.flatMap_nil]
  | cons s visited ih =>
    obtain ⟨hs, hnodup⟩ := List.nodup_cons.mp hnodup
    have hrest : ∀ e ∈ cs.filter fun e => !(site e == s), site e ∈ visited := by
      intro e he
      obtain ⟨he, hne⟩ := List.mem_filter.mp he
      rcases List.mem_cons.mp (h e he) with heq | hmem
      · rw [heq, beq_self_eq_true] at hne
        cases hne
      · exact hmem
    have hsame : ∀ s' ∈ visited, (cs.filter fun e => !(site e == s)).filter (site · == s') =
        cs.filter (site · == s') := by
      intro s' hs'
      rw [List.filter_filter]
      refine List.filter_congr fun e _ => ?_
      by_cases heq : site e = s'
      · have hne : s' ≠ s := fun h => hs (h ▸ hs')
        simp [heq, hne]
      · simp [heq]
    have hperm := ih _ hnodup hrest
    rw [List.flatMap_congr hsame] at hperm
    rw [List.flatMap_cons]
    exact (hperm.append_left _).trans (List.filter_append_perm _ cs)

end Waiting

/-! ### Going through the sites -/

theorem siteOf_mem_sites (first : Table) (rest : List Table) (e : Expr) :
    siteOf first (first :: rest) e ∈ sites first rest := by
  have hsub : (named (first :: rest) e).Sublist (first :: rest) := List.filter_sublist
  unfold siteOf
  split
  · exact List.mem_append_left _ (List.mem_map_of_mem (List.mem_cons_self ..))
  · next u h =>
    rw [h] at hsub
    exact List.mem_append_left _ (List.mem_map_of_mem (hsub.subset (List.mem_singleton_self u)))
  · next u v more h =>
    rw [h] at hsub
    exact List.mem_append_right _ (List.mem_map_of_mem (hsub.tail.subset (List.getLast_mem _)))

theorem nodup_sites {first : Table} {rest : List Table} (hd : Distinct (first :: rest)) :
    (sites first rest).Nodup := by
  refine List.nodup_append.mpr ⟨?_, ?_, ?_⟩
  · exact hd.nodup.map fun _ _ h => Site.above.inj h
  · exact hd.nodup.tail.map fun _ _ h => Site.joining.inj h
  · intro a ha b hb hab
    obtain ⟨t, -, rfl⟩ := List.mem_map.mp ha
    obtain ⟨u, -, rfl⟩ := List.mem_map.mp hb
    cases hab

section Loops

variable {cs : List Expr} (first : Table) {all : List Table} (hd : Distinct all)
  (hcover : ∀ e ∈ cs, Covers all e)

include hd hcover

/-- A table takes the conjuncts of the site above it, once those before it have taken theirs. -/
theorem takeTable_waiting (hfirst : all.head? = some first) (hall : all = front ++ t :: back) :
    (waiting (siteOf first all) cs (front.map .above)).takeTable t.name =
      (held first all cs (.above t), waiting (siteOf first all) cs ((front ++ [t]).map .above)) := by
  have hfresh : Site.above t ∉ front.map .above := by
    intro h
    obtain ⟨u, hu, heq⟩ := List.mem_map.mp h
    subst hall
    exact hd.notMem.1 (Site.above.inj heq ▸ hu)
  rw [List.map_append]
  refine take_waiting _ _ hfresh fun e he hwaits => ?_
  have ht : t ∈ all := hall ▸ List.mem_append_right _ (List.mem_cons_self ..)
  rw [mentionsOnly_iff_named hd (hcover e he) ht, siteOf_eq_above_iff, or_comm]
  refine or_congr_right (iff_self_and.mpr fun hnil => ?_)
  -- a conjunct without tables belongs above the first table, so that one has not taken it yet
  have hsite : siteOf first all e = .above first := siteOf_eq_above_iff.mpr (.inr ⟨hnil, rfl⟩)
  rw [hsite] at hwaits
  cases front with
  | nil =>
    rw [hall] at hfirst
    exact (Option.some.inj hfirst).symm
  | cons u front =>
    rw [hall] at hfirst
    cases hfirst
    exact absurd (List.mem_map_of_mem (List.mem_cons_self ..)) hwaits

theorem selections_waiting (hfirst : all.head? = some first) (hall : all = front ++ ts) :
    selections (waiting (siteOf first all) cs (front.map .above)) ts =
      (ts.map fun t => (t, selection t (held first all cs (.above t))),
        waiting (siteOf first all) cs (all.map .above)) := by
  induction ts generalizing front with
  | nil => rw [hall, List.append_nil, selections, List.map_nil]
  | cons t ts ih =>
    have hall' : all = (front ++ [t]) ++ ts := by rw [hall, List.append_assoc, List.singleton_append]
    simp only [selections, takeTable_waiting first hd hcover hfirst hall, ih hall', List.map_cons]

/-- A join takes the conjuncts of its site, once all tables and the joins before it have taken
theirs. -/
theorem takeJoin_waiting {done : List Table} (hall : all = (first :: done) ++ t :: back) :
    (waiting (siteOf first all) cs (all.map .above ++ done.map .joining)).takeJoin
        ((first :: done).map (·.name)) t.name =
      (held first all cs (.joining t),
        waiting (siteOf first all) cs (all.map .above ++ (done ++ [t]).map .joining)) := by
  have hfresh : Site.joining t ∉ all.map .above ++ done.map .joining := by
    intro h
    rcases List.mem_append.mp h with h | h
    · obtain ⟨u, -, heq⟩ := List.mem_map.mp h
      cases heq
    · obtain ⟨u, hu, heq⟩ := List.mem_map.mp h
      subst hall
      exact hd.notMem.1 (List.mem_cons_of_mem _ (Site.joining.inj heq ▸ hu))
  rw [List.map_append, ← List.append_assoc]
  refine take_waiting _ _ hfresh fun e he hwaits => ?_
  have hconnects := connects_iff_named (hall ▸ hd) (hall ▸ hcover e he)
  have hsite : siteOf first ((first :: done) ++ t :: back) e = .joining t ↔ _ :=
    siteOf_eq_joining_iff (hall ▸ hd)
  rw [← hall] at hconnects hsite
  rw [hconnects, hsite]
  refine iff_self_and.mpr fun hnamed hnil => hwaits ?_
  -- a conjunct that names this table alone has been taken above its scan
  rw [hnil, List.nil_append] at hnamed
  rw [siteOf_eq_above_iff.mpr (.inl hnamed)]
  have ht : t ∈ all := hall ▸ List.mem_append_right _ (List.mem_cons_self ..)
  exact List.mem_append_left _ (List.mem_map_of_mem ht)

theorem joins_waiting {done : List Table} (hall : all = (first :: done) ++ ts) (p : Plan) :
    joins ((first :: done).map (·.name)) p
        (waiting (siteOf first all) cs (all.map .above ++ done.map .joining))
        (ts.map fun t => (t, selection t (held first all cs (.above t)))) =
      (ts.foldl (joinedTo (held first all cs)) p,
        waiting (siteOf first all) cs (all.map .above ++ (done ++ ts).map .joining)) := by
  induction ts generalizing done p with
  | nil => rw [List.append_nil, List.map_nil, joins, List.foldl_nil]
  | cons t ts ih =>
    have hall' : all = (first :: (done ++ [t])) ++ ts := by
      rw [hall, ← List.cons_append, List.append_assoc, List.singleton_append]
    have htake := takeJoin_waiting first hd hcover hall
    rw [List.map_cons] at htake
    simp only [List.map_cons, joins, htake]
    have hstep := ih hall' (joinedTo (held first all cs) p t)
    rw [List.append_assoc, List.singleton_append, ← List.cons_append, List.map_append] at hstep
    exact hstep

end Loops

/-! ### All conjuncts -/

theorem remaining_eq_self {p : Plan} {c : Conjuncts} (h : c.pending = []) : remaining p c = p := by
  simp only [remaining, Conjuncts.takeAll, Conjuncts.take, h, List.filter_nil, Expr.conjunction?]

/-- What is in full in the scope of some tables names no other table. -/
theorem covers_of_fits (h : Scope.Fits (scopeTables ts) e) : Covers ts e := by
  rintro name ⟨c, hc, q, hq, hname⟩
  obtain ⟨i, front, u, back, j, hsplit, hu, -⟩ := h c hc
  have hmem : u ∈ scopeTables ts := hsplit ▸ List.mem_append_right _ (List.mem_cons_self ..)
  obtain ⟨t, ht, rfl⟩ := List.mem_map.mp hmem
  rw [hu] at hq
  obtain rfl := Option.some.inj hq
  exact ⟨t, ht, (Name.canonical_canonical t.name).symm.trans hname⟩

/-- **Each conjunct stands once, and as far down as it can.**  The plan for FROM and WHERE joins the
tables from left to right; it has each conjunct of the condition in full at the site that the
conjunct belongs to, in the order of the condition, and no other predicate; so no filter is left
above the joins. -/
theorem conjuncts_placed {condition : Option Expr} {p : Plan}
    (hnames : (ts.map fun t => canonical t.name).Nodup) (h : base ts condition = .ok p) :
    ∃ first rest cs, ts = first :: rest ∧
      condition.elim (cs = [])
        (fun e => ∃ q, (Scope.ofTables ts).qualifyExpr e = .ok q ∧ q.AndOf cs) ∧
      (∀ e ∈ cs, Covers ts e) ∧
      p = arranged (held first ts cs) first rest ∧
      ((sites first rest).flatMap (held first ts cs)).Perm cs := by
  obtain ⟨q, hq, t, input, ins, c, hs, rfl⟩ := exists_of_base h
  have hcondition : condition.elim ((Conjuncts.ofCondition q).pending = []) (fun e =>
      ∃ q', (Scope.ofTables ts).qualifyExpr e = .ok q' ∧
        q'.AndOf (Conjuncts.ofCondition q).pending) ∧
      ∀ e ∈ (Conjuncts.ofCondition q).pending, Covers ts e := by
    rcases hq with ⟨rfl, rfl⟩ | ⟨e, q', rfl, rfl, hq⟩
    · exact ⟨rfl, fun e he => nomatch he⟩
    · refine ⟨⟨q', hq, Expr.andOf_conjuncts q'⟩, fun e he => covers_of_fits ?_⟩
      exact ((Expr.conjunctive_columns _).iff_conjuncts q').mp (Scope.fits_of_qualifyExpr hq) e he
  obtain ⟨hsplit, hcover⟩ := hcondition
  cases ts with
  | nil => cases hs
  | cons first rest =>
    have hsites := fun e (_ : e ∈ (Conjuncts.ofCondition q).pending) =>
      siteOf_mem_sites first rest e
    refine ⟨first, rest, (Conjuncts.ofCondition q).pending, rfl, hsplit, hcover, ?_,
      perm_flatMap_filter _ _ (nodup_sites hnames) hsites⟩
    have hselections := @selections_waiting (first :: rest) [] _ first _ hnames hcover rfl rfl
    rw [List.map_nil, waiting_nil, hs] at hselections
    obtain ⟨hinputs, rfl⟩ := Prod.mk.inj hselections
    obtain ⟨hfirst, rfl⟩ := List.cons.inj hinputs
    obtain ⟨rfl, rfl⟩ := Prod.mk.inj hfirst
    have hjoins := @joins_waiting rest _ t _ hnames hcover [] rfl
      (selection t (held t (t :: rest) (Conjuncts.ofCondition q).pending (.above t)))
    rw [List.map_nil, List.append_nil, List.nil_append, List.map_singleton] at hjoins
    rw [hjoins]
    exact remaining_eq_self (pending_waiting_eq_nil _ _ hsites)

/-- A conjunct that joins pupils with their marks, and one about pupils alone. -/
theorem conjuncts_placed_sample :
    (([Sample.pupils, Sample.marks].map fun t => canonical t.name).Nodup ∧
      base [Sample.pupils, Sample.marks] (some sampleCondition) = .ok samplePlan) ∧
    ∃ first rest cs, [Sample.pupils, Sample.marks] = first :: rest ∧
      (some sampleCondition).elim (cs = []) (fun e => ∃ q,
        (Scope.ofTables [Sample.pupils, Sample.marks]).qualifyExpr e = .ok q ∧ q.AndOf cs) ∧
      (∀ e ∈ cs, Covers [Sample.pupils, Sample.marks] e) ∧
      samplePlan = arranged (held first [Sample.pupils, Sample.marks] cs) first rest ∧
      ((sites first rest).flatMap (held first [Sample.pupils, Sample.marks] cs)).Perm cs := by
  have hnames : ([Sample.pupils, Sample.marks].map fun t => canonical t.name).Nodup := by
    decide +kernel
  have hplan : base [Sample.pupils, Sample.marks] (some sampleCondition) = .ok samplePlan := rfl
  exact ⟨⟨hnames, hplan⟩, conjuncts_placed hnames hplan⟩

end FlatQuery.Plan
