import FlatQuery.Proofs.Rows.Denotation
import FlatQuery.Proofs.Rows.Fields
import FlatQuery.Proofs.Rows.Grouped

/-!
# What holds of every row that is handed out

Rows are read, tested, paired and gathered by machines that may be asked for rows, and told to start
over, in any order and also after failures.  `Machine.Keeps` says that an invariant of the states
survives every call, and that as long as it holds the rows handed out have a property and no call
fails for want of a field or a column.  Each kind of machine keeps what its inputs keep, so trees of
operators do (`Operator.OnlyHands`), and with them all runs of calls (`OnlyHands.run`).
-/

namespace FlatQuery.Rows

open Outcome

/-! ### Steps -/

/-- That an outcome is a row with a property, the end, or an error that is in place. -/
def Sound (P : Row → Prop) : Except Error (Option Row) → Prop
  | .ok (some r) => P r
  | .ok none => True
  | .error e => e.isMisplaced = false

/-- That calls keep an invariant of the states, and hand out only rows with a property. -/
structure Machine.Keeps {σ : Type} (m : Machine σ) (fs : Files) (I : σ → Prop) (P : Row → Prop) :
    Prop where
  next : ∀ s, I s → Sound P (m.next fs s).1 ∧ I (m.next fs s).2
  reset : ∀ s, I s → InPlace (m.reset fs s).1 ∧ I (m.reset fs s).2

section Steps

variable {σ τ : Type} {m : Machine σ} {l : Machine σ} {r : Machine τ} {fs : Files} {I : σ → Prop}
  {J : τ → Prop} {P P' Q : Row → Prop} {on : Option Term} {indexes : List Nat}

theorem Machine.Keeps.of_next (h : m.Keeps fs I P) {s s' : σ}
    {outcome : Except Error (Option Row)} (hs : I s) (hn : m.next fs s = (outcome, s')) :
    Sound P outcome ∧ I s' := by
  have hstep := h.next s hs
  rwa [hn] at hstep

theorem Machine.Keeps.of_reset (h : m.Keeps fs I P) {s s' : σ} {outcome : Except Error Unit}
    (hs : I s) (hr : m.reset fs s = (outcome, s')) : InPlace outcome ∧ I s' := by
  have hstep := h.reset s hs
  rwa [hr] at hstep

theorem Machine.Keeps.filtered (h : m.Keeps fs I P)
    (hon : ∀ r, P r → InPlace (Term.passes on r)) : (filtered m on).Keeps fs I P where
  next s hs := by
    show Sound P (nextPassing m on fs s).1 ∧ I (nextPassing m on fs s).2
    fun_induction nextPassing m on fs s with
    | case1 s e s' hn => exact h.of_next hs hn
    | case2 s s' hn => exact h.of_next hs hn
    | case3 s row s' hn e he =>
      obtain ⟨hrow, hs'⟩ := h.of_next hs hn
      exact ⟨hon row hrow e he, hs'⟩
    | case4 s row s' hn ht => exact h.of_next hs hn
    | case5 s row s' hn hf ih => exact ih (h.of_next hs hn).2
  reset := h.reset

theorem Machine.Keeps.projected (h : m.Keeps fs I P)
    (hpick : ∀ r, P r → ∃ o, r.pick indexes = .ok o ∧ Q o) :
    (projected m indexes).Keeps fs I Q where
  next s hs := by
    simp only [Rows.projected]
    rcases hn : m.next fs s with ⟨e | _ | row, s'⟩
    · exact h.of_next hs hn
    · exact h.of_next hs hn
    · obtain ⟨hrow, hs'⟩ := h.of_next hs hn
      obtain ⟨o, ho, hQ⟩ := hpick row hrow
      simp only [ho]
      exact ⟨hQ, hs'⟩
  reset := h.reset

/-- What holds of the states of a join: what holds of those of its sides, and of the left row that
is held. -/
structure JoinKept (I : σ → Prop) (J : τ → Prop) (P : Row → Prop) (s : JoinState σ τ) : Prop where
  left : I s.left
  right : J s.right
  current : ∀ a, s.current = some a → P a

theorem JoinKept.idle {x : σ} {y : τ} (hx : I x) (hy : J y) : JoinKept I J P ⟨x, y, none⟩ where
  left := hx
  right := hy
  current a ha := by cases ha

theorem keeps_joined (hl : l.Keeps fs I P) (hr : r.Keeps fs J P')
    (hpair : ∀ a b, P a → P' b → Q (a.append b))
    (hon : ∀ r, Q r → InPlace (Term.passes on r)) :
    (joined l r on).Keeps fs (JoinKept I J P) Q where
  next s hs := by
    show Sound Q (nextPair l r on fs s).1 ∧ JoinKept I J P (nextPair l r on fs s).2
    -- the held left row has `P` from its fetching on, so each pair tried has `Q`
    fun_induction nextPair l r on fs s with
    | case1 x y a e y' hn =>
      obtain ⟨he, hy'⟩ := hr.of_next hs.right hn
      exact ⟨he, .idle hs.left hy'⟩
    | case2 x y a y' hn ih => exact ih (.idle hs.left (hr.of_next hs.right hn).2)
    | case3 x y a b y' hn e he =>
      obtain ⟨hb, hy'⟩ := hr.of_next hs.right hn
      exact ⟨hon _ (hpair a b (hs.current a rfl) hb) e he, hs.left, hy', hs.current⟩
    | case4 x y a b y' hn ht =>
      obtain ⟨hb, hy'⟩ := hr.of_next hs.right hn
      exact ⟨hpair a b (hs.current a rfl) hb, hs.left, hy', hs.current⟩
    | case5 x y a b y' hn hf ih => exact ih ⟨hs.left, (hr.of_next hs.right hn).2, hs.current⟩
    | case6 x y e x' hn =>
      obtain ⟨he, hx'⟩ := hl.of_next hs.left hn
      exact ⟨he, .idle hx' hs.right⟩
    | case7 x y x' hn => exact ⟨trivial, .idle (hl.of_next hs.left hn).2 hs.right⟩
    | case8 x y a x' hn e y' hy =>
      obtain ⟨he, hy'⟩ := hr.of_reset hs.right hy
      exact ⟨he e rfl, .idle (hl.of_next hs.left hn).2 hy'⟩
    | case9 x y a x' hn y' hy ih =>
      obtain ⟨ha, hx'⟩ := hl.of_next hs.left hn
      refine ih ⟨hx', (hr.of_reset hs.right hy).2, fun a' ha' => ?_⟩
      cases ha'
      exact ha
  reset s hs := by
    simp only [joined]
    rcases hx : l.reset fs s.left with ⟨e | _, x⟩
    · obtain ⟨he, hleft⟩ := hl.of_reset hs.left hx
      exact ⟨inPlace_error (he e rfl), hleft, hs.right, hs.current⟩
    · obtain ⟨-, hleft⟩ := hl.of_reset hs.left hx
      rcases hy : r.reset fs s.right with ⟨e | _, y⟩
      · obtain ⟨he, hright⟩ := hr.of_reset hs.right hy
        exact ⟨inPlace_error (he e rfl), hleft, hright, hs.current⟩
      · exact ⟨inPlace_ok (), .idle hleft (hr.of_reset hs.right hy).2⟩

/-- That a gathering makes rows with one property of rows with another, by way of what holds of what
it has gathered. -/
structure Gathers (g : Gathering) (P Q : Row → Prop) (A : g.Acc → Prop) : Prop where
  start : A g.start
  step : ∀ acc r, A acc → P r →
    InPlace (g.step acc r) ∧ ∀ acc', g.step acc r = .ok acc' → A acc'
  finish : ∀ acc, A acc → InPlace (g.finish acc) ∧ ∀ rows, g.finish acc = .ok rows → ∀ r ∈ rows, Q r

theorem Machine.Keeps.fold (h : m.Keeps fs I P) {g : Gathering} {A : g.Acc → Prop}
    (hg : Gathers g P Q A) {acc : g.Acc} {s : σ} (hacc : A acc) (hs : I s) :
    InPlace (m.fold fs g.step acc s).1 ∧
      (∀ acc', (m.fold fs g.step acc s).1 = .ok acc' → A acc') ∧ I (m.fold fs g.step acc s).2 := by
  have hfailed : ∀ (e : Error) (acc : g.Acc), (.error e : Except Error g.Acc) = .ok acc → A acc := by
    intro e acc h
    cases h
  fun_induction m.fold fs g.step acc s with
  | case1 acc s e s' hn =>
    obtain ⟨he, hs'⟩ := h.of_next hs hn
    exact ⟨inPlace_error he, hfailed e, hs'⟩
  | case2 acc s s' hn =>
    refine ⟨inPlace_ok acc, fun acc' hacc' => ?_, (h.of_next hs hn).2⟩
    cases hacc'
    exact hacc
  | case3 acc s row s' hn e he =>
    obtain ⟨hrow, hs'⟩ := h.of_next hs hn
    exact ⟨inPlace_error ((hg.step acc row hacc hrow).1 e he), hfailed e, hs'⟩
  | case4 acc s row s' hn acc' hstep ih =>
    obtain ⟨hrow, hs'⟩ := h.of_next hs hn
    exact ih ((hg.step acc row hacc hrow).2 acc' hstep) hs'

/-- What holds of the states of a gathering machine: what holds of those of its input, and of the
rows that are still to be handed out. -/
structure GatherKept (I : σ → Prop) (Q : Row → Prop) (s : GatherState σ) : Prop where
  input : I s.input
  output : ∀ rest, s.output = .ready rest → ∀ r ∈ rest, Q r

theorem GatherKept.unread {x : σ} (hx : I x) : GatherKept I Q ⟨x, .pending⟩ where
  input := hx
  output rest hrest := by cases hrest

theorem Machine.Keeps.gathered (h : m.Keeps fs I P) {g : Gathering} {A : g.Acc → Prop}
    (hg : Gathers g P Q A) : (gathered m g).Keeps fs (GatherKept I Q) Q where
  next s hs := by
    -- reading the input and taking a row that is ready end in the same step
    have hready : ∀ (input : σ) (rows : List Row), I input → (∀ r ∈ rows, Q r) →
        Sound Q (.ok ((Gathered.ready rows).advance).1) ∧
          GatherKept I Q ⟨input, ((Gathered.ready rows).advance).2⟩ := by
      intro input rows hinput hrows
      cases rows with
      | nil => exact ⟨trivial, hinput, fun rest hrest => by cases hrest; exact hrows⟩
      | cons r rest =>
        obtain ⟨hr, hrest⟩ := List.forall_mem_cons.mp hrows
        exact ⟨hr, hinput, fun rest' hrest' => by cases hrest'; exact hrest⟩
    obtain ⟨input, output⟩ := s
    cases output with
    | ready rest => exact hready input rest hs.input (hs.output rest rfl)
    | pending =>
      have hfold := h.fold hg hg.start hs.input
      simp only [Rows.gathered, nextGathered, gather]
      rcases hrun : m.fold fs g.step g.start input with ⟨e | acc, input'⟩
      · rw [hrun] at hfold
        exact ⟨hfold.1 e rfl, .unread hfold.2.2⟩
      · rw [hrun] at hfold
        obtain ⟨herror, hrows⟩ := hg.finish acc (hfold.2.1 acc rfl)
        cases hfinish : g.finish acc with
        | error e =>
          simp only [hfinish]
          exact ⟨herror e hfinish, .unread hfold.2.2⟩
        | ok rows =>
          simp only [hfinish]
          exact hready input' rows hfold.2.2 (hrows rows hfinish)
  reset s hs := by
    simp only [Rows.gathered]
    rcases hr : m.reset fs s.input with ⟨e | _, input⟩
    · obtain ⟨he, hinput⟩ := h.of_reset hs.input hr
      exact ⟨inPlace_error (he e rfl), hinput, hs.output⟩
    · exact ⟨inPlace_ok (), .unread (h.of_reset hs.input hr).2⟩

end Steps

/-! ### Gatherings -/

theorem forall_mem_addNew {P : Row → Prop} {seen : List Row} {r : Row} (hseen : ∀ r ∈ seen, P r)
    (hr : P r) : ∀ r' ∈ addNew seen r, P r' := by
  unfold addNew
  split
  · exact hseen
  · exact List.forall_mem_cons.mpr ⟨hr, hseen⟩

theorem gathers_deduplicating (P : Row → Prop) :
    Gathers deduplicating P P (fun seen : List Row => ∀ r ∈ seen, P r) where
  start := fun r hr => nomatch hr
  step seen r hseen hr := by
    refine ⟨inPlace_ok _, fun seen' h => ?_⟩
    obtain rfl := Except.ok.inj h
    exact forall_mem_addNew hseen hr
  finish seen hseen := by
    refine ⟨inPlace_ok _, fun rows h r hr => ?_⟩
    obtain rfl := Except.ok.inj h
    exact hseen r (List.mem_reverse.mp hr)

theorem gathers_sorting {ks : List SortKey} {P : Row → Prop}
    (hkeys : ∀ k ∈ ks, ∀ r, P r → k.index < r.width) :
    Gathers (sorting ks) P P (fun seen : List Row => ∀ r ∈ seen, P r) where
  start := fun r hr => nomatch hr
  step seen r hseen hr := by
    refine ⟨inPlace_ok _, fun seen' h => ?_⟩
    obtain rfl := Except.ok.inj h
    exact List.forall_mem_cons.mpr ⟨hr, hseen⟩
  finish seen hseen := by
    refine ⟨inPlace_sortRows fun k hk r hr => hkeys k hk r (hseen r (List.mem_reverse.mp hr)), ?_⟩
    intro rows h r hr
    have hmem := (perm_and_pairwise_of_sortRows h).1.mem_iff.mp hr
    exact hseen r (List.mem_reverse.mp hmem)

/-- The rows of groups are as wide as what is shown and summed. -/
theorem gathers_grouping {spec : GroupSpec} {P : Row → Prop}
    (hkey : ∀ r, P r → ∀ i ∈ spec.group, i < r.width)
    (hshown : ∀ r, P r → ∀ i ∈ spec.shown, i < r.width)
    (hsums : ∀ r, P r → ∀ t ∈ spec.sums, InPlace (t.summand r)) :
    Gathers (grouping spec) P (fun r => r.width = spec.shown.length + spec.sums.length)
      (fun groups : List Group => ∃ rows, Summary spec rows groups) where
  start := ⟨[], rfl, List.nodup_nil, fun g hg => nomatch hg⟩
  step groups r hgroups hr := by
    obtain ⟨rows, hrows⟩ := hgroups
    exact ⟨inPlace_addRow (hkey r hr) (hshown r hr) (hsums r hr) groups,
      fun groups' h => ⟨_, hrows.step h⟩⟩
  finish groups hgroups := by
    obtain ⟨rows, hrows⟩ := hgroups
    refine ⟨inPlace_ok _, fun out h o ho => ?_⟩
    obtain rfl := Except.ok.inj h
    unfold GroupSpec.rows at ho
    split at ho
    · rename_i hempty
      have hshown : spec.shown = [] := by simpa using (Bool.and_eq_true_iff.mp hempty).2
      obtain rfl := List.mem_singleton.mp ho
      simp [Row.width, Group.toRow, GroupSpec.zeros, hshown]
    · obtain ⟨g, hg, rfl⟩ := List.mem_map.mp ho
      obtain ⟨⟨r, -, hfields⟩, hsums⟩ := hrows.totals g hg
      have hlength : g.shown.length = spec.shown.length := by
        have h := congrArg List.length hfields
        simpa [fieldsAt] using h
      simp [Row.width, Group.toRow, hlength, hsums.length_eq]

/-! ### Data files -/

/-- The row that a line writes, if it is a text and not blank. -/
def lineRow? : Option String → Option Row
  | none => none
  | some line =>
    if Text.isBlankText (withoutLineEnd line) then none
    else some (Row.ofLine Row.separator (withoutLineEnd line))

/-- The rows of the data file of a table, also of the part after a line that is no text. -/
def dataRows (fs : Files) (t : Table) : List Row :=
  match openTable fs t with
  | .ok h => (h.upcoming fs).filterMap lineRow?
  | .error _ => []

/-- The first row of some lines is the row of one of them, and the lines left are among them. -/
theorem sound_firstRow (path : String) {P : Row → Prop} {ls : List (Option String)}
    (h : ∀ r ∈ ls.filterMap lineRow?, P r) :
    Sound P (firstRow path ls).1 ∧ ∀ r ∈ (firstRow path ls).2.filterMap lineRow?, P r := by
  induction ls with
  | nil => exact ⟨trivial, h⟩
  | cons l ls ih =>
    cases l with
    | none => exact ⟨rfl, h⟩
    | some line =>
      by_cases hb : Text.isBlankText (withoutLineEnd line) = true
      · have hnone : lineRow? (some line) = none := by simp only [lineRow?, hb, if_true]
        rw [List.filterMap_cons_none hnone] at h
        simp only [firstRow, hb, if_true]
        exact ih h
      · have hsome : lineRow? (some line) =
            some (Row.ofLine Row.separator (withoutLineEnd line)) := by
          simp only [lineRow?, hb, if_false, Bool.false_eq_true]
        rw [List.filterMap_cons_some hsome] at h
        simp only [firstRow, hb, if_false, Bool.false_eq_true]
        exact List.forall_mem_cons.mp h

theorem keeps_scanned {fs : Files} {t : Table} {P : Row → Prop} (h : ∀ r ∈ dataRows fs t, P r) :
    (scanned t).Keeps fs (fun s => ∀ r ∈ (s.upcoming fs).filterMap lineRow?, P r) P where
  next s hs := by
    show Sound P (nextScanned t.dataFile.text fs s).1 ∧
      ∀ r ∈ ((nextScanned t.dataFile.text fs s).2.upcoming fs).filterMap lineRow?, P r
    obtain ⟨node, offset, pending⟩ := s
    cases node with
    | directory => exact ⟨rfl, hs⟩
    | file id =>
      simp only [Files.Handle.upcoming, List.filterMap_append, List.forall_mem_append] at hs
      have hheld := sound_firstRow t.dataFile.text hs.1
      have hunread := sound_firstRow t.dataFile.text hs.2
      simp only [nextScanned]
      rcases hfirst : firstRow t.dataFile.text pending with ⟨e | _ | row, rest⟩
      · rw [hfirst] at hheld
        refine ⟨hheld.1, ?_⟩
        rw [Files.Handle.upcoming, List.filterMap_append, List.forall_mem_append]
        exact ⟨hheld.2, hs.2⟩
      · -- the lines held are used up, and what the file holds beyond them is brought in
        simp only [Files.Handle.refill, List.nil_append]
        refine ⟨hunread.1, ?_⟩
        rw [upcoming_of_read]
        exact hunread.2
      · rw [hfirst] at hheld
        refine ⟨hheld.1, ?_⟩
        rw [Files.Handle.upcoming, List.filterMap_append, List.forall_mem_append]
        exact ⟨hheld.2, hs.2⟩
  reset s hs := by
    simp only [scanned]
    cases hopen : openTable fs t with
    | error e =>
      obtain ⟨cause, rfl⟩ := openTable_error hopen
      exact ⟨inPlace_error rfl, hs⟩
    | ok s' =>
      simp only [dataRows, hopen] at h
      exact ⟨inPlace_ok (), h⟩

/-! ### Trees of operators -/

/-- That a tree of operators, from its start on, hands out only rows with a property. -/
def Operator.OnlyHands (fs : Files) (P : Row → Prop) (op : Operator) : Prop :=
  ∃ I : op.State → Prop, (∀ s, op.start? fs = .ok s → I s) ∧ op.machine.Keeps fs I P

namespace Operator.OnlyHands

variable {fs : Files} {P P' Q : Row → Prop} {op l r : Operator} {on : Option Term}

theorem scan {t : Table} (h : ∀ r ∈ dataRows fs t, P r) : (Operator.scan t).OnlyHands fs P := by
  refine ⟨_, fun s hs => ?_, keeps_scanned h⟩
  have hopen : openTable fs t = .ok s := hs
  simp only [dataRows, hopen] at h
  exact h

theorem filter (h : op.OnlyHands fs P) (hon : ∀ r, P r → InPlace (Term.passes on r)) :
    (Operator.filter op on).OnlyHands fs P := by
  obtain ⟨I, hstart, hkeeps⟩ := h
  exact ⟨I, hstart, hkeeps.filtered hon⟩

theorem project {indexes : List Nat} {labels : List String} (h : op.OnlyHands fs P)
    (hindexes : ∀ r, P r → ∀ i ∈ indexes, i < r.width) :
    (Operator.project op indexes labels).OnlyHands fs (·.width = indexes.length) := by
  obtain ⟨I, hstart, hkeeps⟩ := h
  refine ⟨I, hstart, hkeeps.projected fun r hr => ?_⟩
  obtain ⟨o, ho⟩ := exists_pick_iff.mpr (hindexes r hr)
  obtain ⟨fields, hfields, hpick⟩ := bind_eq_ok_iff.mp ho
  cases hpick
  exact ⟨_, ho, length_mapM hfields⟩

theorem join (hl : l.OnlyHands fs P) (hr : r.OnlyHands fs P')
    (hpair : ∀ a b, P a → P' b → Q (a.append b))
    (hon : ∀ r, Q r → InPlace (Term.passes on r)) : (Operator.join l r on).OnlyHands fs Q := by
  obtain ⟨I, hstart, hkeeps⟩ := hl
  obtain ⟨J, hstart', hkeeps'⟩ := hr
  refine ⟨_, fun s hs => ?_, keeps_joined hkeeps hkeeps' hpair hon⟩
  obtain ⟨x, hx, hs⟩ := bind_eq_ok_iff.mp hs
  obtain ⟨y, hy, hs⟩ := bind_eq_ok_iff.mp hs
  cases hs
  exact .idle (hstart x hx) (hstart' y hy)

theorem gather {g : Gathering} {A : g.Acc → Prop} (h : op.OnlyHands fs P) (hg : Gathers g P Q A) :
    ∃ I : GatherState op.State → Prop,
      (∀ s, (op.start? fs >>= fun x => pure (GatherState.mk x .pending)) = .ok s → I s) ∧
        (gathered op.machine g).Keeps fs I Q := by
  obtain ⟨I, hstart, hkeeps⟩ := h
  refine ⟨_, fun s hs => ?_, hkeeps.gathered hg⟩
  obtain ⟨x, hx, hs⟩ := bind_eq_ok_iff.mp hs
  cases hs
  exact .unread (hstart x hx)

theorem sort {ks : List SortKey} (h : op.OnlyHands fs P)
    (hkeys : ∀ k ∈ ks, ∀ r, P r → k.index < r.width) : (Operator.sort op ks).OnlyHands fs P :=
  h.gather (gathers_sorting hkeys)

theorem distinct (h : op.OnlyHands fs P) : (Operator.distinct op).OnlyHands fs P :=
  h.gather (gathers_deduplicating P)

theorem groupSum {spec : GroupSpec} (h : op.OnlyHands fs P)
    (hkey : ∀ r, P r → ∀ i ∈ spec.group, i < r.width)
    (hshown : ∀ r, P r → ∀ i ∈ spec.shown, i < r.width)
    (hsums : ∀ r, P r → ∀ t ∈ spec.sums, InPlace (t.summand r)) :
    (Operator.groupSum op spec).OnlyHands fs
      (·.width = spec.shown.length + spec.sums.length) :=
  h.gather (gathers_grouping hkey hshown hsums)

end Operator.OnlyHands

/-! ### Runs of calls -/

/-- That an answer is a row with a property, or in place. -/
def Reply.Sound (P : Row → Prop) : Reply → Prop
  | .row outcome => Rows.Sound P outcome
  | .started outcome => InPlace outcome

theorem Reply.Sound.imp {P Q : Row → Prop} (h : ∀ r, P r → Q r) {reply : Reply}
    (hreply : reply.Sound P) : reply.Sound Q := by
  rcases reply with ⟨e | _ | r⟩ | outcome
  · exact hreply
  · exact hreply
  · exact h r hreply
  · exact hreply

/-- Whatever a tree is asked for, it hands out only such rows, and never fails for want of a field
or a column. -/
theorem Operator.OnlyHands.run {fs : Files} {P : Row → Prop} {op : Operator} {s : op.State}
    (h : op.OnlyHands fs P) (hs : op.start? fs = .ok s) (calls : List Call) :
    ∀ reply ∈ ((Cursor.mk op s).run (calls.map (fs, ·))).1, reply.Sound P := by
  obtain ⟨I, hstart, hkeeps⟩ := h
  have hI := hstart s hs
  clear hs
  induction calls generalizing s with
  | nil => exact fun reply hreply => nomatch hreply
  | cons call calls ih =>
    rw [List.map_cons, Cursor.run, List.forall_mem_cons]
    cases call with
    | next =>
      obtain ⟨hreply, hnext⟩ := hkeeps.next s hI
      exact ⟨hreply, ih hnext⟩
    | reset =>
      obtain ⟨hreply, hnext⟩ := hkeeps.reset s hI
      exact ⟨hreply, ih hnext⟩

end FlatQuery.Rows
