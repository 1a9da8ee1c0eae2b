import FlatQuery.Proofs.Rows.Calls
import FlatQuery.Proofs.Rows.Start

/-!
# The nested loop

A join looks for its next pair in a loop that holds a left row between calls and starts the right
side over only when it fetches another one.  What is still to be tested in a state of that loop is a
list of pairs (`ToTest`): those of the left row that is held with the right rows to come, and then
those of the left rows to come with all right rows.  A call tests pairs from the front of that list
and leaves the rest (`Passed.of_next`), so draining tests every pair once, in order
(`drain_logged`).

That a pair is tested cannot be seen from the answers.  `nextBy` is the loop over any test that may
keep a record of what it is asked; if the test answers as the condition does, it is the loop of the
join (`nextPair_eq_nextBy`).  With a test that records every pair, `testsOf` are the pairs tested.
-/

namespace FlatQuery.Rows

variable {σ τ : Type} {l : Machine σ} {r : Machine τ} {on : Option Term} {fs : Files}

/-! ### Pairs -/

/-- Each row of one list beside each row of another, the first list varying slowest. -/
def sideBySide (ls rs : List Row) : List Row :=
  ls.flatMap fun a => rs.map a.append

/-- The rows of a list up to the first that cannot be tested, that one included. -/
def tried (on : Option Term) : List Row → List Row
  | [] => []
  | p :: rest =>
    match Term.passes on p with
    | .error _ => [p]
    | .ok _ => p :: tried on rest

/-- What is handed out when the rows of a list are tested one after the other. -/
def sifted (on : Option Term) (rows : List Row) : Yield :=
  (Yield.ofList rows).bind (tested on)

theorem sifted_cons (on : Option Term) (p : Row) (rest : List Row) :
    sifted on (p :: rest) = match Term.passes on p with
      | .error e => .fail e
      | .ok true => .cons p (sifted on rest)
      | .ok false => sifted on rest := by
  have hstep : sifted on (p :: rest) = (tested on p).append (sifted on rest) := rfl
  rw [hstep, tested]
  rcases Term.passes on p with e | _ | _
  · rfl
  · rfl
  · rfl

/-- Rows that can all be tested are all tested, and those that pass are handed out. -/
theorem sifted_of_tested {rows : List Row} (h : ∀ p ∈ rows, ∃ b, Term.passes on p = .ok b) :
    sifted on rows = .ofList (rows.filter fun p => Term.passes on p = .ok true) ∧
      tried on rows = rows := by
  induction rows with
  | nil => exact ⟨rfl, rfl⟩
  | cons p rest ih =>
    obtain ⟨⟨b, hb⟩, hrest⟩ := List.forall_mem_cons.mp h
    obtain ⟨hsifted, htried⟩ := ih hrest
    rw [sifted_cons, tried, hsifted, htried]
    cases b with
    | true => simp [hb, Yield.cons, Yield.ofList]
    | false => simp [hb]

theorem sifted_of_error {before : List Row} {p : Row} {e : Error}
    (h : ∀ q ∈ before, ∃ b, Term.passes on q = .ok b) (hp : Term.passes on p = .error e)
    (after : List Row) :
    sifted on (before ++ p :: after) =
        ⟨before.filter fun q => Term.passes on q = .ok true, some e⟩ ∧
      tried on (before ++ p :: after) = before ++ [p] := by
  induction before with
  | nil =>
    rw [List.nil_append, sifted_cons, tried, hp]
    exact ⟨rfl, rfl⟩
  | cons q before ih =>
    obtain ⟨⟨b, hb⟩, hbefore⟩ := List.forall_mem_cons.mp h
    obtain ⟨hsifted, htried⟩ := ih hbefore
    rw [List.cons_append, sifted_cons, tried, hsifted, htried]
    cases b with
    | true => simp [hb, Yield.cons]
    | false => simp [hb]

/-! ### The loop with a test that keeps a record -/

/-- The next pair that passes a test.  The test is handed a record with each pair, and hands it on.
-/
def nextBy {ω : Type} (l : Machine σ) (r : Machine τ) (test : ω → Row → Except Error Bool × ω)
    (fs : Files) (s : JoinState σ τ × ω) : Except Error (Option Row) × JoinState σ τ × ω :=
  match _hs : s with
  | (⟨x, y, some left⟩, w) =>
    match _h : r.next fs y with
    | (.error e, y') => (.error e, ⟨x, y', none⟩, w)
    | (.ok none, y') => nextBy l r test fs (⟨x, y', none⟩, w)
    | (.ok (some right), y') =>
      match test w (left.append right) with
      | (.error e, w') => (.error e, ⟨x, y', some left⟩, w')
      | (.ok true, w') => (.ok (some (left.append right)), ⟨x, y', some left⟩, w')
      | (.ok false, w') => nextBy l r test fs (⟨x, y', some left⟩, w')
  | (⟨x, y, none⟩, w) =>
    match _h : l.next fs x with
    | (.error e, x') => (.error e, ⟨x', y, none⟩, w)
    | (.ok none, x') => (.ok none, ⟨x', y, none⟩, w)
    | (.ok (some left), x') =>
      match _hr : r.reset fs y with
      | (.error e, y') => (.error e, ⟨x', y', none⟩, w)
      | (.ok (), y') => nextBy l r test fs (⟨x', y', some left⟩, w)
  termination_by (JoinState.size l r fs s.1, if s.1.current.isSome then 0 else 1)
  decreasing_by
  · exact Prod.Lex.left _ _ size_join_end
  · exact Prod.Lex.left _ _ (size_join_row (by assumption))
  · rcases Nat.lt_or_eq_of_le (size_join_start (by assumption) (by assumption)) with h | h
    · exact Prod.Lex.left _ _ h
    · rw [h]
      exact Prod.Lex.right _ (by simp)

theorem nextPair_held (l : Machine σ) (r : Machine τ) (on : Option Term) (fs : Files) (x : σ)
    (y : τ) (a : Row) : nextPair l r on fs ⟨x, y, some a⟩ =
      match r.next fs y with
      | (.error e, y') => (.error e, ⟨x, y', none⟩)
      | (.ok none, y') => nextPair l r on fs ⟨x, y', none⟩
      | (.ok (some b), y') =>
        match Term.passes on (a.append b) with
        | .error e => (.error e, ⟨x, y', some a⟩)
        | .ok true => (.ok (some (a.append b)), ⟨x, y', some a⟩)
        | .ok false => nextPair l r on fs ⟨x, y', some a⟩ := by
  rw [nextPair]
  split
  · simp only [*]
  · simp only [*]
  · rename_i b y' hn
    rcases hp : Term.passes on (a.append b) with e | _ | _
    · simp only [hn, hp]
    · simp only [hn, hp]
    · simp only [hn, hp]

theorem nextPair_idle (l : Machine σ) (r : Machine τ) (on : Option Term) (fs : Files) (x : σ)
    (y : τ) : nextPair l r on fs ⟨x, y, none⟩ =
      match l.next fs x with
      | (.error e, x') => (.error e, ⟨x', y, none⟩)
      | (.ok none, x') => (.ok none, ⟨x', y, none⟩)
      | (.ok (some a), x') =>
        match r.reset fs y with
        | (.error e, y') => (.error e, ⟨x', y', none⟩)
        | (.ok (), y') => nextPair l r on fs ⟨x', y', some a⟩ := by
  rw [nextPair]
  split
  · simp only [*]
  · simp only [*]
  · split <;> simp only [*]

/-- Over a test that answers as the condition does, the loop is that of the join. -/
theorem nextPair_eq_nextBy {ω : Type} (l : Machine σ) (r : Machine τ) {on : Option Term}
    {test : ω → Row → Except Error Bool × ω} (htest : ∀ w p, (test w p).1 = Term.passes on p)
    (fs : Files) (s : JoinState σ τ × ω) : nextPair l r on fs s.1 =
      ((nextBy l r test fs s).1, (nextBy l r test fs s).2.1) := by
  fun_induction nextBy l r test fs s with
  | case1 x y a w e y' hn => simp only [nextPair_held, hn]
  | case2 x y a w y' hn ih =>
    rw [nextPair_held, hn]
    exact ih
  | case3 x y a w b y' hn e w' hp =>
    have hpass := htest w (a.append b)
    simp only [nextPair_held, hn, ← hpass, hp]
  | case4 x y a w b y' hn w' hp =>
    have hpass := htest w (a.append b)
    simp only [nextPair_held, hn, ← hpass, hp]
  | case5 x y a w b y' hn w' hp ih =>
    have hpass := htest w (a.append b)
    rw [nextPair_held, hn]
    simp only [← hpass, hp]
    exact ih
  | case6 x y w e x' hn => simp only [nextPair_idle, hn]
  | case7 x y w x' hn => simp only [nextPair_idle, hn]
  | case8 x y w a x' hn e y' hy => simp only [nextPair_idle, hn, hy]
  | case9 x y w a x' hn y' hy ih =>
    rw [nextPair_idle, hn]
    simp only [hy]
    exact ih

/-- The condition as a test that writes down the pairs it is asked about. -/
def recording (on : Option Term) (log : List Row) (p : Row) : Except Error Bool × List Row :=
  (Term.passes on p, log ++ [p])

theorem nextPair_eq_recording (l : Machine σ) (r : Machine τ) (on : Option Term) (fs : Files)
    (s : JoinState σ τ × List Row) : nextPair l r on fs s.1 =
      ((nextBy l r (recording on) fs s).1, (nextBy l r (recording on) fs s).2.1) :=
  nextPair_eq_nextBy l r (fun _ _ => rfl) fs s

/-- The join, which also writes down the pairs that it tests. -/
def logged (l : Machine σ) (r : Machine τ) (on : Option Term) :
    Machine (JoinState σ τ × List Row) where
  next := nextBy l r (recording on)
  reset fs s := (((joined l r on).reset fs s.1).1, ((joined l r on).reset fs s.1).2, s.2)
  size fs s := JoinState.size l r fs s.1
  full := (joined l r on).full
  size_next := by
    intro fs s row s' h
    have hn := nextPair_eq_recording l r on fs s
    rw [h] at hn
    exact (joined l r on).size_next fs s.1 row s'.1 hn
  size_reset := by
    intro fs s s' h
    obtain ⟨houtcome, hstate⟩ := Prod.mk.inj h
    subst hstate
    exact (joined l r on).size_reset fs s.1 _ (Prod.ext houtcome rfl)

theorem drain_joined_eq (l : Machine σ) (r : Machine τ) (on : Option Term) (fs : Files)
    (s : JoinState σ τ × List Row) : (joined l r on).drain fs s.1 =
      (((logged l r on).drain fs s).1, ((logged l r on).drain fs s).2.1,
        ((logged l r on).drain fs s).2.2.1) :=
  Machine.drain_map (m := joined l r on) (f := Prod.fst) (nextPair_eq_recording l r on fs) s

/-- The pairs that a join tests while it is drained. -/
def testsOf (l : Machine σ) (r : Machine τ) (on : Option Term) (fs : Files)
    (s : JoinState σ τ) : List Row :=
  ((logged l r on).drain fs (s, [])).2.2.2

/-! ### What is still to be tested -/

/-- The pairs that are still to be tested in a state of the loop.  The left rows to come are those
the left side supplies, and the right side, which stood at `y₀` first, supplies `rs` each time it
starts over. -/
inductive ToTest (l : Machine σ) (r : Machine τ) (fs : Files) (y₀ : τ) (rs : List Row) :
    JoinState σ τ → List Row → Prop
  | idle {x : σ} {y : τ} {ls : List Row} (hy : r.Reaches fs y₀ y) (hx : l.Supplies fs x ls) :
    ToTest l r fs y₀ rs ⟨x, y, none⟩ (sideBySide ls rs)
  | held {x : σ} {y : τ} {a : Row} {ls bs : List Row} (hy : r.Reaches fs y₀ y)
    (hx : l.Supplies fs x ls) (hb : r.Supplies fs y bs) :
    ToTest l r fs y₀ rs ⟨x, y, some a⟩ (bs.map a.append ++ sideBySide ls rs)

/-- What a call makes of the pairs to test: it takes from the front of them up to the first that
passes or fails, and writes down what it has taken. -/
def Passed (l : Machine σ) (r : Machine τ) (on : Option Term) (fs : Files) (y₀ : τ)
    (rs todo log : List Row) : Except Error (Option Row) × JoinState σ τ × List Row → Prop
  | (.error e, _, log') => sifted on todo = .fail e ∧ log' = log ++ tried on todo
  | (.ok none, s', log') =>
    sifted on todo = .empty ∧ log' = log ++ tried on todo ∧ ToTest l r fs y₀ rs s' []
  | (.ok (some p), s', log') =>
    ∃ rest, sifted on todo = .cons p (sifted on rest) ∧
      log' ++ tried on rest = log ++ tried on todo ∧ ToTest l r fs y₀ rs s' rest

variable {y₀ : τ} {rs todo log : List Row}

theorem Passed.skip {p : Row} (hp : Term.passes on p = .ok false)
    {result : Except Error (Option Row) × JoinState σ τ × List Row}
    (h : Passed l r on fs y₀ rs todo (log ++ [p]) result) :
    Passed l r on fs y₀ rs (p :: todo) log result := by
  have hsifted : sifted on (p :: todo) = sifted on todo := by rw [sifted_cons, hp]
  have htried : log ++ tried on (p :: todo) = log ++ [p] ++ tried on todo := by
    rw [tried, hp, List.append_assoc, List.singleton_append]
  rcases result with ⟨e | _ | q, s', log'⟩
  · simpa only [Passed, hsifted, htried] using h
  · simpa only [Passed, hsifted, htried] using h
  · simpa only [Passed, hsifted, htried] using h

/-- **A step of the loop.**  By the recursion of the loop: it goes round when the right side has
ended, when a left row has been fetched, and when a pair does not pass; of these only the last tests
a pair. -/
theorem ToTest.next (hr : r.Repeats fs y₀ rs) {s : JoinState σ τ × List Row}
    (h : ToTest l r fs y₀ rs s.1 todo) :
    Passed l r on fs y₀ rs todo s.2 (nextBy l r (recording on) fs s) := by
  fun_induction nextBy l r (recording on) fs s generalizing todo with
  | case1 x y a log e y' hn =>
    cases h with
    | held hy hx hb => exact (hb.not_error hn).elim
  -- the right side is at its end: the left row is given up, and no pair goes with it
  | case2 x y a log y' hn ih =>
    cases h with
    | held hy hx hb =>
      obtain ⟨rfl, -⟩ := hb.of_end hn
      exact ih (.idle (hy.of_next hn) hx)
  | case3 x y a log b y' hn e log' hp =>
    obtain ⟨he, rfl⟩ := Prod.mk.inj hp
    cases h with
    | held hy hx hb =>
      obtain ⟨bs, rfl, -⟩ := hb.of_row hn
      rw [List.map_cons, List.cons_append, Passed, sifted_cons, tried, he]
      exact ⟨rfl, rfl⟩
  | case4 x y a log b y' hn log' hp =>
    obtain ⟨ht, rfl⟩ := Prod.mk.inj hp
    cases h with
    | held hy hx hb =>
      obtain ⟨bs, rfl, hb'⟩ := hb.of_row hn
      rw [List.map_cons, List.cons_append, Passed, sifted_cons, tried, ht]
      exact ⟨_, rfl, List.append_assoc _ _ _, .held (hy.of_next hn) hx hb'⟩
  | case5 x y a log b y' hn log' hp ih =>
    obtain ⟨hf, rfl⟩ := Prod.mk.inj hp
    cases h with
    | held hy hx hb =>
      obtain ⟨bs, rfl, hb'⟩ := hb.of_row hn
      rw [List.map_cons, List.cons_append]
      exact (ih (.held (hy.of_next hn) hx hb')).skip hf
  | case6 x y log e x' hn =>
    cases h with
    | idle hy hx => exact (hx.not_error hn).elim
  | case7 x y log x' hn =>
    cases h with
    | idle hy hx =>
      obtain ⟨rfl, hx'⟩ := hx.of_end hn
      exact ⟨rfl, (List.append_nil log).symm, .idle hy hx'⟩
  | case8 x y log a x' hn e y' hreset =>
    cases h with
    | idle hy hx =>
      obtain ⟨t, ht, -⟩ := hr y hy
      cases hreset.symm.trans ht
  -- a left row is fetched: its pairs with all of `rs` stand in front of those to come
  | case9 x y log a x' hn y' hreset ih =>
    cases h with
    | idle hy hx =>
      obtain ⟨ls, rfl, hx'⟩ := hx.of_row hn
      obtain ⟨t, ht, hb⟩ := hr y hy
      obtain rfl : y' = t := congrArg Prod.snd (hreset.symm.trans ht)
      rw [sideBySide, List.flatMap_cons]
      exact ih (.held (hy.of_reset hreset) hx' hb)

/-- **A run of the loop.** -/
theorem ToTest.drain_logged {s : JoinState σ τ} (h : ToTest l r fs y₀ rs s todo)
    (hr : r.Repeats fs y₀ rs) (on : Option Term) (log : List Row) :
    ∃ s', (logged l r on).drain fs (s, log) =
        ((sifted on todo).rows, (sifted on todo).error, s', log ++ tried on todo) ∧
      ((sifted on todo).error = none → ToTest l r fs y₀ rs s' []) := by
  generalize hp : (s, log) = p
  -- one `ToTest.next` a round; `todo` shrinks by the pairs tried, which go to the log
  fun_induction (logged l r on).drain fs p generalizing s todo log with
  | case1 p e p' hn =>
    subst hp
    have hstep : Passed l r on fs y₀ rs todo log ((logged l r on).next fs (s, log)) := h.next hr
    rw [hn] at hstep
    obtain ⟨hsifted, hlog⟩ := hstep
    rw [hsifted, ← hlog]
    refine ⟨p'.1, rfl, ?_⟩
    intro hnone
    cases hnone
  | case2 p p' hn =>
    subst hp
    have hstep : Passed l r on fs y₀ rs todo log ((logged l r on).next fs (s, log)) := h.next hr
    rw [hn] at hstep
    obtain ⟨hsifted, hlog, hend⟩ := hstep
    rw [hsifted, ← hlog]
    exact ⟨p'.1, rfl, fun _ => hend⟩
  | case3 p row p' hn rows e p'' hd ih =>
    subst hp
    have hstep : Passed l r on fs y₀ rs todo log ((logged l r on).next fs (s, log)) := h.next hr
    rw [hn] at hstep
    obtain ⟨rest, hsifted, hlog, hrest⟩ := hstep
    obtain ⟨t, hdrain, hend⟩ := ih hrest p'.2 rfl
    rw [hd] at hdrain
    obtain ⟨rfl, rfl, rfl⟩ : rows = _ ∧ e = _ ∧ p'' = _ := by simpa using hdrain
    rw [hsifted, ← hlog]
    exact ⟨t, rfl, hend⟩

/-- Once nothing is left to test, every call is answered with the end. -/
theorem ToTest.ended (hr : r.Repeats fs y₀ rs) {s : JoinState σ τ}
    (h : ToTest l r fs y₀ rs s []) : (joined l r on).Supplies fs s [] := by
  refine Machine.supplies_nil_of_kept (I := fun s => ToTest l r fs y₀ rs s []) ?_ h
  intro s hs
  have hstep : Passed l r on fs y₀ rs [] [] (nextBy l r (recording on) fs (s, [])) :=
    ToTest.next hr hs
  have hnext : (joined l r on).next fs s = _ := nextPair_eq_recording l r on fs (s, [])
  rw [hnext]
  rcases hn : nextBy l r (recording on) fs (s, []) with ⟨e | _ | p, s', log⟩
  · rw [hn] at hstep
    cases hstep.1
  · rw [hn] at hstep
    exact ⟨s', rfl, hstep.2.2⟩
  · rw [hn] at hstep
    obtain ⟨rest, hsifted, -⟩ := hstep
    cases hsifted

/-! ### Joins -/

/-- **The nested loop.**  Let the left side supply a list, and the right side supply another each
time it starts over.  If the condition can be evaluated on every pair, the join drains to the pairs
that pass, in order, has nothing to hand out after that however often it is asked, and has tested
each pair once.  Otherwise it ends with the error of the first pair that fails, after the pairs
before it that pass, having tested each of those once and the one that fails. -/
theorem drain_joined {x : σ} {y : τ} {ls rs : List Row} (hl : l.Supplies fs x ls)
    (hr : r.Repeats fs y rs) (on : Option Term) :
    ((∀ p ∈ sideBySide ls rs, ∃ b, Term.passes on p = .ok b) →
      (∃ s, (joined l r on).drain fs ⟨x, y, none⟩ =
          ((sideBySide ls rs).filter fun p => Term.passes on p = .ok true, none, s) ∧
        (joined l r on).Supplies fs s []) ∧
      testsOf l r on fs ⟨x, y, none⟩ = sideBySide ls rs) ∧
    ∀ before p after e, sideBySide ls rs = before ++ p :: after →
      (∀ q ∈ before, ∃ b, Term.passes on q = .ok b) → Term.passes on p = .error e →
        (∃ s, (joined l r on).drain fs ⟨x, y, none⟩ =
          (before.filter fun q => Term.passes on q = .ok true, some e, s)) ∧
        testsOf l r on fs ⟨x, y, none⟩ = before ++ [p] := by
  have hstart : ToTest l r fs y rs ⟨x, y, none⟩ (sideBySide ls rs) := .idle .start hl
  obtain ⟨s, hlogged, hend⟩ := hstart.drain_logged hr on []
  have hdrain := drain_joined_eq l r on fs (⟨x, y, none⟩, [])
  rw [hlogged] at hdrain
  have htests : testsOf l r on fs ⟨x, y, none⟩ = tried on (sideBySide ls rs) := by
    rw [testsOf, hlogged]
    rfl
  constructor
  · intro hall
    obtain ⟨hsifted, htried⟩ := sifted_of_tested hall
    rw [hsifted] at hdrain hend
    exact ⟨⟨s, hdrain, (hend rfl).ended hr⟩, htests.trans htried⟩
  · intro before p after e hpairs hbefore hp
    obtain ⟨hsifted, htried⟩ := sifted_of_error hbefore hp after
    rw [hpairs, hsifted] at hdrain
    rw [htests, hpairs, htried]
    exact ⟨⟨s, hdrain⟩, rfl⟩

namespace Sample

/-- The rows of the pupils, the last of whom has no number. -/
def pupilRows : List Row := [⟨["1", "14"]⟩, ⟨["2", "15"]⟩, ⟨["x", "15"]⟩]

def markRows : List Row := [⟨["1", "3"]⟩, ⟨["2", "1"]⟩]

end Sample

/-- Pupils and their marks, until the pupil without a number is met. -/
theorem drain_joined_sample :
    ((listed Sample.pupilRows).Supplies Sample.files Sample.pupilRows Sample.pupilRows ∧
      (listed Sample.markRows).Repeats Sample.files [] Sample.markRows) ∧
    (∃ s, (joined (listed Sample.pupilRows) (listed Sample.markRows)
        (some Sample.matchingTerm)).drain Sample.files ⟨Sample.pupilRows, [], none⟩ =
      ([⟨["1", "14", "1", "3"]⟩, ⟨["2", "15", "2", "1"]⟩], some (.notInteger "x"), s)) ∧
    testsOf (listed Sample.pupilRows) (listed Sample.markRows) (some Sample.matchingTerm)
        Sample.files ⟨Sample.pupilRows, [], none⟩ =
      [⟨["1", "14", "1", "3"]⟩, ⟨["1", "14", "2", "1"]⟩, ⟨["2", "15", "1", "3"]⟩,
        ⟨["2", "15", "2", "1"]⟩, ⟨["x", "15", "1", "3"]⟩] := by
  have hl := Machine.supplies_listed Sample.pupilRows Sample.files Sample.pupilRows
  have hr := Machine.repeats_listed Sample.markRows Sample.files []
  have hbefore : ∀ q ∈ [⟨["1", "14", "1", "3"]⟩, ⟨["1", "14", "2", "1"]⟩,
      ⟨["2", "15", "1", "3"]⟩, ⟨["2", "15", "2", "1"]⟩],
      ∃ b, Term.passes (some Sample.matchingTerm) q = .ok b := by
    simp only [List.forall_mem_cons]
    exact ⟨⟨true, by decide⟩, ⟨false, by decide⟩, ⟨false, by decide⟩, ⟨true, by decide⟩,
      fun _ h => nomatch h⟩
  have hcut := (drain_joined hl hr (some Sample.matchingTerm)).2 _ ⟨["x", "15", "1", "3"]⟩
    [⟨["x", "15", "2", "1"]⟩] (.notInteger "x") rfl hbefore (by decide)
  exact ⟨⟨hl, hr⟩, hcut⟩

end FlatQuery.Rows
