import FlatQuery.Proofs.Sql.Scanned
import FlatQuery.Sql.Grammar.Sentences

/-!
# Reading a SELECT of one item from one table

How readers run one after another on given tokens, and what becomes of the tokens of
`SELECT * FROM n` and `SELECT n.* FROM n`.  Nothing follows the name, so from there on every reader
finds no token (`Reader.Exhausts`), and the sentence is read or refused as the name is as a source
(`sentences?_star`, `sentences?_tableStar`).  The star of a name that starts with a word that may
stand before the items is not read (`sentences?_listWord`).
-/

namespace FlatQuery.Sql

abbrev Token.plain (word : String) : Token :=
  .word { value := word }

namespace Reader

variable {α β γ : Type} {depth : Nat} {ts rest : List Token} {r : Reader α} {a : α}

/-! ### One reader after another -/

theorem bind_ok {f : α → Reader β} (h : r depth ts = .ok (a, rest)) :
    (r >>= f) depth ts = f a depth rest := by
  show (r depth ts >>= fun p => f p.1 depth p.2) = _
  rw [h]
  rfl

theorem bind_error {f : α → Reader β} {e : Fault} (h : r depth ts = .error e) :
    (r >>= f) depth ts = .error e := by
  show (r depth ts >>= fun p => f p.1 depth p.2) = _
  rw [h]
  rfl

/-- The reader takes all tokens; it fails if `x` does, and otherwise answers what `g` makes of what
`x` gives. -/
def Exhausts (r : Reader α) (depth : Nat) (ts : List Token) (x : Except Fault γ) (g : γ → α) :
    Prop :=
  r depth ts = x.map fun c => (g c, [])

theorem Exhausts.bind {x : Except Fault γ} {f : α → Reader β} {g : γ → α} {k : γ → β}
    (h : Exhausts r depth ts x g) (hf : ∀ c, f (g c) depth [] = .ok (k c, [])) :
    Exhausts (r >>= f) depth ts x k := by
  cases x with
  | error e => exact bind_error h
  | ok c => exact (bind_ok h).trans (hf c)

theorem Exhausts.after {f : α → Reader β} {x : Except Fault γ} {k : γ → β}
    (h : r depth ts = .ok (a, rest)) (hf : Exhausts (f a) depth rest x k) :
    Exhausts (r >>= f) depth ts x k :=
  (bind_ok h).trans hf

/-! ### What comes next -/

def ahead? (ts : List Token) : Option String :=
  ts.head?.bind (·.keyword?)

theorem ahead?_plain {word k : String} (h : (Token.plain word).keyword? = some k)
    (ts : List Token) : ahead? (.plain word :: ts) = some k :=
  h

theorem seesAny_eq (ks : List String) :
    seesAny ks depth ts = .ok ((ahead? ts).any ks.contains, ts) := rfl

theorem sees_absent {k : String} (h : ahead? ts ≠ some k) :
    sees k depth ts = .ok (false, ts) := by
  rw [sees, seesAny_eq]
  cases hk : ahead? ts with
  | none => rfl
  | some k' =>
    have hne : k' ≠ k := fun he => h (by rw [hk, he])
    simp [hne]

theorem sees_present {k : String} {t : Token} (h : t.keyword? = some k) :
    sees k depth (t :: ts) = .ok (true, t :: ts) := by
  have hahead : ahead? (t :: ts) = some k := h
  rw [sees, seesAny_eq, hahead]
  simp

theorem keyword_absent {k : String} (h : ahead? ts ≠ some k) :
    keyword k depth ts = .ok (false, ts) :=
  (bind_ok (sees_absent h)).trans rfl

theorem keyword_present {k : String} {t : Token} (h : t.keyword? = some k) :
    keyword k depth (t :: ts) = .ok (true, ts) :=
  (bind_ok (sees_present h)).trans rfl

theorem keywords_absent {k : String} {ks : List String} (h : ahead? ts ≠ some k) :
    keywords (k :: ks) depth ts = .ok (false, ts) := by
  have hne : ((ts.take (k :: ks).length).map (·.keyword?) == (k :: ks).map some) = false := by
    cases ts with
    | nil => rfl
    | cons t ts => exact beq_false_of_ne fun he => h (List.cons.inj he).1
  show (if _ then _ else _ : Reader Bool) depth ts = _
  simp only [hne]
  rfl

theorem keywords_present {k : String} {t : Token} (h : t.keyword? = some k) :
    keywords [k] depth (t :: ts) = .ok (true, ts) := by
  have heq : (((t :: ts).take [k].length).map (·.keyword?) == [k].map some) = true := by
    simp [h]
  show (if _ then _ else _ : Reader Bool) depth (t :: ts) = _
  simp only [heq]
  rfl

theorem after_absent {k : String} {ks : List String} (h : ahead? ts ≠ some k) :
    after (k :: ks) r depth ts = .ok (none, ts) :=
  (bind_ok (keywords_absent h)).trans rfl

theorem clause_absent {k : String} {ks : List String} {r : Reader String}
    (h : ahead? ts ≠ some k) : clause (k :: ks) r depth ts = .ok (none, ts) :=
  after_absent h

theorem mark_absent {m : String} (h : ts.head? ≠ some (.symbol m)) :
    mark m depth ts = .ok (false, ts) := by
  have hsees : seesMark m depth ts = .ok (false, ts) := by
    show Except.ok (ts.head? == some (.symbol m), ts) = _
    rw [beq_false_of_ne h]
  exact (bind_ok hsees).trans rfl

theorem commaList_of_one (h : r depth ts = .ok (a, rest))
    (hcomma : rest.head? ≠ some (.symbol ",")) : commaList r depth ts = .ok ([a], rest) := by
  show listed r _ depth ts = _
  rw [listed, bind_ok h, bind_ok (mark_absent hcomma)]
  rfl

theorem commaList_error {e : Fault} (h : r depth ts = .error e) :
    commaList r depth ts = .error e := by
  show listed r _ depth ts = _
  rw [listed, bind_error h]

end Reader

namespace Grammar

open Reader

variable {l : Level} {depth : Nat} {ids : List Ident}

/-! ### Names -/

theorem length_le_length_partTokens : ∀ ids : List Ident, ids.length ≤ (partTokens ids).length
  | [] => le_rfl
  | [_] => le_rfl
  | _ :: j :: rest =>
    Nat.succ_le_succ ((length_le_length_partTokens (j :: rest)).trans (Nat.le_succ _))

theorem nameParts_partTokens : ∀ {ids : List Ident} {fuel : Nat}, ids ≠ [] → ids.length ≤ fuel →
    nameParts fuel depth (partTokens ids) = .ok (ids, [])
  | [i], fuel + 1, _, _ => rfl
  | i :: j :: rest, fuel + 1, _, hfuel => by
    have ih := nameParts_partTokens (List.cons_ne_nil j rest) (Nat.le_of_succ_le_succ hfuel)
    show (nameParts fuel >>= fun ids => pure (i :: ids) : Reader (List Ident)) depth
      (partTokens (j :: rest)) = _
    rw [bind_ok ih]
    rfl

theorem name_partTokens (h : ids ≠ []) : name depth (partTokens ids) = .ok (ids, []) :=
  nameParts_partTokens h ((length_le_length_partTokens ids).trans (Nat.le_succ _))

theorem partTokens_cons (i : Ident) (rest : List Ident) :
    ∃ more, partTokens (i :: rest) = .word i :: more ∧
      (more = [] ∨ ∃ ts, more = .symbol "." :: ts) := by
  cases rest with
  | nil => exact ⟨[], rfl, .inl rfl⟩
  | cons j rest => exact ⟨_, rfl, .inr ⟨_, rfl⟩⟩

/-! ### Names as sources -/

/-- The words that start a source other than a table. -/
def sourceWords : List String :=
  ["LATERAL", "TABLE", "UNNEST"]

/-- The source that a name is read as; no source starts with a word for another kind and goes on
like a name. -/
def factorOf (ids : List Ident) : Except Fault Factor :=
  if (ahead? (partTokens ids)).any sourceWords.contains then .error .unexpected
  else .ok { head := .table ids {} }

theorem table_partTokens (h : ids ≠ []) :
    table l depth (partTokens ids) = .ok ({ head := .table ids {} }, []) :=
  (bind_ok (name_partTokens h)).trans rfl

/-- A word for another source is read as such, and then what it needs is missing. -/
theorem factor_of_sourceWord {i : Ident} {more : List Token} {k : String} (hk : k ∈ sourceWords)
    (h : (Token.word i).keyword? = some k) (hmore : more = [] ∨ ∃ ts, more = .symbol "." :: ts) :
    factor l depth (.word i :: more) = .error .unexpected := by
  have habsent : ∀ k', k ≠ k' → keyword k' depth (.word i :: more) =
      .ok (false, .word i :: more) := fun k' hne =>
    keyword_absent fun he => hne (Option.some.inj (h.symm.trans he))
  have hmark : mark "(" depth (.word i :: more) = .ok (false, .word i :: more) :=
    mark_absent nofun
  have hpresent : keyword k depth (.word i :: more) = .ok (true, more) := keyword_present h
  simp only [sourceWords, List.mem_cons, List.not_mem_nil, or_false] at hk
  obtain rfl | rfl | rfl := hk
  · refine (bind_ok hpresent).trans ?_
    obtain rfl | ⟨ts, rfl⟩ := hmore <;> rfl
  · refine (bind_ok (habsent _ (by decide))).trans ?_
    refine (bind_ok hpresent).trans ?_
    obtain rfl | ⟨ts, rfl⟩ := hmore <;> rfl
  · refine (bind_ok (habsent _ (by decide))).trans ?_
    refine (bind_ok (habsent _ (by decide))).trans ?_
    refine (bind_ok hmark).trans ?_
    refine (bind_ok hpresent).trans ?_
    obtain rfl | ⟨ts, rfl⟩ := hmore <;> rfl

theorem exhausts_factor (h : ids ≠ []) :
    Exhausts (factor l) depth (partTokens ids) (factorOf ids) id := by
  obtain ⟨i, rest, rfl⟩ := List.exists_cons_of_ne_nil h
  obtain ⟨more, hmore, hend⟩ := partTokens_cons i rest
  rw [factorOf]
  split
  case isTrue hword =>
    obtain ⟨k, hk, hin⟩ := (Option.any_eq_true ..).mp hword
    rw [hmore] at hk ⊢
    exact factor_of_sourceWord (List.elem_iff.mp hin) hk hend
  case isFalse hword =>
    have habsent : ∀ k ∈ sourceWords, ahead? (partTokens (i :: rest)) ≠ some k :=
      fun k hin hk => hword (by rw [hk]; exact List.elem_iff.mpr hin)
    have hmark : (partTokens (i :: rest)).head? ≠ some (.symbol "(") := by
      rw [hmore]
      exact nofun
    have hbefore : ∀ k, seesBefore k depth (partTokens (i :: rest)) =
        .ok (false, partTokens (i :: rest)) := fun k => by
      rw [hmore]
      obtain rfl | ⟨ts, rfl⟩ := hend <;> rfl
    refine (bind_ok (keyword_absent (habsent _ (by decide)))).trans ?_
    refine (bind_ok (keyword_absent (habsent _ (by decide)))).trans ?_
    refine (bind_ok (mark_absent hmark)).trans ?_
    refine (bind_ok (keyword_absent (habsent _ (by decide)))).trans ?_
    refine (bind_ok (hbefore _)).trans ?_
    refine (bind_ok (hbefore _)).trans ?_
    refine (bind_ok (hbefore _)).trans ?_
    exact table_partTokens h

/-- The list of sources that is one source without joins. -/
def only (f : Factor) : List Joined :=
  [{ first := f }]

theorem exhausts_sources {ts : List Token} {x : Except Fault Factor}
    (h : Exhausts l.factor depth ts x id) : Exhausts (sources l) depth ts x only := by
  have hjoined : Exhausts (joined l) depth ts x fun f => { first := f } := h.bind fun _ => rfl
  show Exhausts (listed (joined l) (ts.length + 1)) depth ts x only
  exact hjoined.bind fun _ => rfl

/-! ### Stars as items -/

theorem keyword_select : (Token.plain "SELECT").keyword? = some "SELECT" := by decide

theorem keyword_from : (Token.plain "FROM").keyword? = some "FROM" := by decide

theorem starOptions_from (front : List Token) :
    starOptions l depth (.plain "FROM" :: front) = .ok ({}, .plain "FROM" :: front) := by
  have habsent : ∀ k, "FROM" ≠ k → ahead? (.plain "FROM" :: front) ≠ some k :=
    fun k hne he => hne (Option.some.inj (keyword_from.symm.trans he))
  refine (bind_ok (clause_absent (habsent _ (by decide)))).trans ?_
  refine (bind_ok (clause_absent (habsent _ (by decide)))).trans ?_
  refine (bind_ok (clause_absent (habsent _ (by decide)))).trans ?_
  refine (bind_ok (clause_absent (habsent _ (by decide)))).trans ?_
  refine (bind_ok (clause_absent (habsent _ (by decide)))).trans ?_
  rfl

theorem item_star (front : List Token) :
    item l depth (.symbol "*" :: .plain "FROM" :: front) =
      .ok (.star {}, .plain "FROM" :: front) := by
  have hstarred : starred l depth (.symbol "*" :: .plain "FROM" :: front) =
      .ok (.star, .plain "FROM" :: front) := rfl
  exact (bind_ok hstarred).trans (bind_ok (starOptions_from front))

/-- A chain of names that ends in a star gives them all, in order. -/
theorem chainAfter_partTokens (rest : List Token) : ∀ (i : Ident) (ids before : List Ident),
    ∃ more, partTokens (i :: ids) ++ .symbol "." :: .symbol "*" :: rest = .word i :: more ∧
      chainAfter (i :: before) more = .star (before.reverse ++ i :: ids) rest
  | i, [], before => by
    refine ⟨_, rfl, ?_⟩
    show Chain.star (i :: before).reverse rest = _
    rw [List.reverse_cons]
  | i, j :: ids, before => by
    obtain ⟨more, hmore, hchain⟩ := chainAfter_partTokens rest j ids (i :: before)
    refine ⟨.symbol "." :: .word j :: more, ?_, ?_⟩
    · rw [← hmore]
      rfl
    · show chainAfter (j :: i :: before) more = _
      rw [hchain, List.reverse_cons, List.append_assoc]
      rfl

theorem item_tableStar (h : ids ≠ []) (front : List Token) :
    item l depth (partTokens ids ++ .symbol "." :: .symbol "*" :: .plain "FROM" :: front) =
      .ok (.tableStar (dotted ids) {}, .plain "FROM" :: front) := by
  obtain ⟨i, rest, rfl⟩ := List.exists_cons_of_ne_nil h
  obtain ⟨more, hmore, hchain⟩ := chainAfter_partTokens (.plain "FROM" :: front) i rest []
  have hstar : (Token.word i :: more).head? ≠ some (.symbol "*") := by
    rintro ⟨⟩
  have hupcoming : upcoming depth (.word i :: more) = .ok (.word i :: more, .word i :: more) := rfl
  have hstarred : starred l depth (.word i :: more) =
      .ok (.tableStar (i :: rest), .plain "FROM" :: front) := by
    rw [starred, bind_ok (mark_absent hstar), if_neg Bool.false_ne_true, bind_ok hupcoming]
    simp only [nameToken?, hchain]
    rfl
  rw [hmore]
  exact (bind_ok hstarred).trans (bind_ok (starOptions_from front))

/-! ### SELECT -/

/-- The words that stand before the items of a SELECT, and FROM, before which there are none. -/
def listWords : List String :=
  ["ALL", "DISTINCT", "TOP", "FROM"]

theorem needKeyword_select (ts : List Token) :
    needKeyword "SELECT" depth (.plain "SELECT" :: ts) = .ok ((), ts) :=
  (bind_ok (keyword_present keyword_select)).trans rfl

theorem repeats_absent {ts : List Token} (hall : ahead? ts ≠ some "ALL")
    (hdistinct : ahead? ts ≠ some "DISTINCT") : repeats l depth ts = .ok (.kept, ts) :=
  (bind_ok (keyword_absent hall)).trans ((bind_ok (keyword_absent hdistinct)).trans rfl)

/-- A SELECT of items that are read, from a source after which nothing follows. -/
theorem exhausts_selectAfter {ts front : List Token} {items : List Item} {x : Except Fault Factor}
    (hfirst : ∀ k ∈ listWords, ahead? ts ≠ some k)
    (hitems : commaList (item l) depth ts = .ok (items, .plain "FROM" :: front))
    (hsource : Exhausts l.factor depth front x id) :
    Exhausts (selectAfter l none) depth (.plain "SELECT" :: ts) x
      fun f => { items, sources := only f } := by
  have hinto : ahead? (.plain "FROM" :: front) ≠ some "INTO" := by
    rw [ahead?_plain keyword_from]
    decide
  have hfrom : Exhausts (after ["FROM"] (sources l)) depth (.plain "FROM" :: front) x
      fun f => some (only f) :=
    .after (keywords_present keyword_from) ((exhausts_sources hsource).bind fun _ => rfl)
  refine .after (needKeyword_select ts) ?_
  refine .after (repeats_absent (hfirst _ (by decide)) (hfirst _ (by decide))) ?_
  refine .after (clause_absent (hfirst _ (by decide))) ?_
  refine .after (sees_absent (hfirst _ (by decide))) ?_
  refine .after hitems ?_
  refine .after (clause_absent hinto) ?_
  exact hfrom.bind fun _ => rfl

/-! ### Statements -/

/-- The query that selects an item from a source. -/
def selecting (i : Item) (f : Factor) : QuerySentence :=
  { body := .select { items := [i], sources := only f } }

theorem exhausts_body {ts : List Token} {x : Except Fault Factor} {g : Factor → SelectSentence}
    (h : Exhausts (selectAfter l none) depth (.plain "SELECT" :: ts) x g) :
    Exhausts (body l 0) depth (.plain "SELECT" :: ts) x fun f => .select (g f) := by
  have hsees : seesAny ["SELECT", "FROM"] depth (.plain "SELECT" :: ts) =
      .ok (true, .plain "SELECT" :: ts) := by
    rw [seesAny_eq, ahead?_plain keyword_select]
    rfl
  have hfrom : ahead? (.plain "SELECT" :: ts) ≠ some "FROM" := by
    rw [ahead?_plain keyword_select]
    decide
  have hselect : Exhausts (select l) depth (.plain "SELECT" :: ts) x g :=
    .after (after_absent hfrom) h
  have hoperand : Exhausts (bodyOperand l) depth (.plain "SELECT" :: ts) x
      fun f => .select (g f) :=
    .after hsees (hselect.bind fun _ => rfl)
  exact hoperand.bind fun _ => rfl

theorem exhausts_query {ts : List Token} {x : Except Fault Factor} {g : Factor → Body}
    (h : Exhausts (l.body 0) depth (.plain "SELECT" :: ts) x g) :
    Exhausts (query l) (depth + 1) (.plain "SELECT" :: ts) x fun f => { body := g f } := by
  have hwith : ahead? (.plain "SELECT" :: ts) ≠ some "WITH" := by
    rw [ahead?_plain keyword_select]
    decide
  exact .after (clause_absent hwith) (h.bind fun _ => rfl)

theorem exhausts_statement {ts : List Token} {x : Except Fault Factor} {g : Factor → QuerySentence}
    (h : Exhausts l.query depth (.plain "SELECT" :: ts) x g) :
    Exhausts (statement l) (depth + 1) (.plain "SELECT" :: ts) x fun f => .query (g f) := by
  have hsees : seesAny ["SELECT", "WITH", "VALUES", "FROM"] depth (.plain "SELECT" :: ts) =
      .ok (true, .plain "SELECT" :: ts) := by
    rw [seesAny_eq, ahead?_plain keyword_select]
    rfl
  have hmark : seesMark "(" depth (.plain "SELECT" :: ts) =
      .ok (false, .plain "SELECT" :: ts) := rfl
  refine .after hsees ?_
  refine .after hmark ?_
  exact h.bind fun _ => rfl

theorem exhausts_statements {ts : List Token} {x : Except Fault Factor} {g : Factor → Sentence}
    (h : Exhausts (level levels).statement depth (.plain "SELECT" :: ts) x g) (fuel : Nat) :
    Exhausts (statements (fuel + 2) false) depth (.plain "SELECT" :: ts) x fun f => [g f] := by
  have hskip : skipSemicolons (ts.length + 1) depth (.plain "SELECT" :: ts) =
      .ok (false, .plain "SELECT" :: ts) :=
    (bind_ok (mark_absent (by rintro ⟨⟩))).trans rfl
  have hpeek : peek depth (.plain "SELECT" :: ts) =
      .ok (some (.plain "SELECT"), .plain "SELECT" :: ts) := rfl
  have hupcoming : upcoming depth (.plain "SELECT" :: ts) =
      .ok (.plain "SELECT" :: ts, .plain "SELECT" :: ts) := rfl
  refine .after hupcoming ?_
  refine .after hskip ?_
  refine .after hpeek ?_
  exact h.bind fun _ => rfl

/-- A text is read or refused as its SELECT is; nesting is far from its limit there. -/
theorem sentences?_of_selectAfter {ts : List Token} {x : Except Fault Factor}
    {g : Factor → SelectSentence}
    (h : Exhausts (selectAfter (level 253) none) 47 (.plain "SELECT" :: ts) x g) :
    sentences? (.plain "SELECT" :: ts) =
      x.toOption.map fun f => [.query { body := .select (g f) }] := by
  have hstatement : Exhausts (level levels).statement nestingLimit (.plain "SELECT" :: ts) x
      fun f => .query { body := .select (g f) } :=
    exhausts_statement (exhausts_query (exhausts_body h))
  have hall : statements ((Token.plain "SELECT" :: ts).length + 1) false nestingLimit
      (.plain "SELECT" :: ts) = x.map fun f => ([.query { body := .select (g f) }], []) :=
    exhausts_statements hstatement ts.length
  rw [sentences?, hall]
  cases x with
  | error e => rfl
  | ok f => rfl

/-- A text that selects an item from a name is read or refused as the name is as a source. -/
theorem sentences?_of_item {ts : List Token} {i : Item} (h : ids ≠ [])
    (hfirst : ∀ k ∈ listWords, ahead? ts ≠ some k)
    (hitem : ∀ {l : Level} {depth : Nat},
      item l depth ts = .ok (i, .plain "FROM" :: partTokens ids)) :
    sentences? (.plain "SELECT" :: ts) = (factorOf ids).toOption.map fun f => [.query (selecting i f)] := by
  have hcomma : (Token.plain "FROM" :: partTokens ids).head? ≠ some (.symbol ",") := nofun
  exact sentences?_of_selectAfter
    (exhausts_selectAfter hfirst (commaList_of_one hitem hcomma) (exhausts_factor h))

theorem sentences?_star (h : ids ≠ []) :
    sentences? (.plain "SELECT" :: .symbol "*" :: .plain "FROM" :: partTokens ids) =
      (factorOf ids).toOption.map fun f => [.query (selecting (.star {}) f)] :=
  sentences?_of_item h (fun _ _ => nofun) (item_star _)

theorem sentences?_tableStar (h : ids ≠ [])
    (hfirst : ∀ k ∈ listWords, ahead? (partTokens ids) ≠ some k) :
    sentences? (.plain "SELECT" :: (partTokens ids ++
        .symbol "." :: .symbol "*" :: .plain "FROM" :: partTokens ids)) =
      (factorOf ids).toOption.map fun f => [.query (selecting (.tableStar (dotted ids) {}) f)] := by
  refine sentences?_of_item h ?_ (item_tableStar h _)
  obtain ⟨i, rest, rfl⟩ := List.exists_cons_of_ne_nil h
  obtain ⟨more, hmore, -⟩ := partTokens_cons i rest
  rw [hmore] at hfirst ⊢
  exact hfirst

/-! ### Names that start with a word of the list -/

theorem phrase_period (least : Nat) (ts : List Token) :
    phrase l least (depth + 1) (.symbol "." :: ts) = .error .unexpected := rfl

theorem item_period (ts : List Token) {below : Level} (hbelow : l.phrase 0 = phrase below 0) :
    item l (depth + 1) (.symbol "." :: ts) = .error .unexpected := by
  have hexpr : l.expr (depth + 1) (.symbol "." :: ts) = .error .unexpected := by
    rw [Level.expr, hbelow, phrase_period]
  have hupcoming : upcoming (depth + 1) (.symbol "." :: ts) =
      .ok (.symbol "." :: ts, .symbol "." :: ts) := rfl
  have hstarred : starred l (depth + 1) (.symbol "." :: ts) = .error .unexpected := by
    refine (bind_ok (mark_absent (by simp))).trans ?_
    refine (bind_ok hupcoming).trans ?_
    exact bind_error hexpr
  exact bind_error hstarred

theorem factor_period {ts : List Token} (hts : (∃ i more, ts = .word i :: more) ∨
    ∃ more, ts = .symbol "*" :: more) :
    factor l depth (.symbol "." :: ts) = .error .unexpected := by
  have hbefore : ∀ k, seesBefore k depth (.symbol "." :: ts) = .ok (false, .symbol "." :: ts) :=
    fun k => by obtain ⟨i, more, rfl⟩ | ⟨more, rfl⟩ := hts <;> rfl
  have hahead : ∀ k, ahead? (.symbol "." :: ts) ≠ some k := nofun
  refine (bind_ok (keyword_absent (hahead _))).trans ?_
  refine (bind_ok (keyword_absent (hahead _))).trans ?_
  refine (bind_ok (mark_absent (by simp))).trans ?_
  refine (bind_ok (keyword_absent (hahead _))).trans ?_
  refine (bind_ok (hbefore _)).trans ?_
  refine (bind_ok (hbefore _)).trans ?_
  refine (bind_ok (hbefore _)).trans ?_
  rfl

/-- A word that stands before the items is read as such, and no item follows it. -/
theorem selectAfter_of_listWord {i : Ident} {more : List Token} {k : String} (hk : k ∈ listWords)
    (h : (Token.word i).keyword? = some k)
    (hmore : (∃ j ts, more = .word j :: ts) ∨ ∃ ts, more = .symbol "*" :: ts) {below : Level}
    (hphrase : l.phrase 0 = phrase below 0) (hfactor : l.factor = factor below) :
    selectAfter l none (depth + 1) (.plain "SELECT" :: .word i :: .symbol "." :: more) =
      .error .unexpected := by
  have hperiod : ∀ k, ahead? (.symbol "." :: more) ≠ some k := nofun
  have habsent : ∀ k', k ≠ k' → ahead? (.word i :: .symbol "." :: more) ≠ some k' :=
    fun k' hne he => hne (Option.some.inj (h.symm.trans he))
  have hitems : commaList (item l) (depth + 1) (.symbol "." :: more) = .error .unexpected :=
    commaList_error (item_period more hphrase)
  refine (bind_ok (needKeyword_select _)).trans ?_
  simp only [listWords, List.mem_cons, List.not_mem_nil, or_false] at hk
  obtain rfl | rfl | rfl | rfl := hk
  · have hrepeats : repeats l (depth + 1) (.word i :: .symbol "." :: more) =
        .ok (.kept, .symbol "." :: more) :=
      (bind_ok (keyword_present h)).trans ((bind_ok (keyword_absent (hperiod _))).trans rfl)
    refine (bind_ok hrepeats).trans ?_
    refine (bind_ok (clause_absent (hperiod _))).trans ?_
    refine (bind_ok (sees_absent (hperiod _))).trans ?_
    exact bind_error hitems
  · have hrepeats : repeats l (depth + 1) (.word i :: .symbol "." :: more) =
        .ok (.dropped, .symbol "." :: more) := by
      refine (bind_ok (keyword_absent (habsent _ (by decide)))).trans ?_
      refine (bind_ok (keyword_present h)).trans ?_
      exact (bind_ok (keyword_absent (hperiod _))).trans rfl
    refine (bind_ok hrepeats).trans ?_
    refine (bind_ok (clause_absent (hperiod _))).trans ?_
    refine (bind_ok (sees_absent (hperiod _))).trans ?_
    exact bind_error hitems
  · have htop : clause ["TOP"] (top l) (depth + 1) (.word i :: .symbol "." :: more) =
        .error .unexpected := by
      refine (bind_ok (keywords_present h)).trans ?_
      rfl
    refine (bind_ok (repeats_absent (habsent _ (by decide)) (habsent _ (by decide)))).trans ?_
    exact bind_error htop
  · have hfrom : after ["FROM"] (sources l) (depth + 1) (.word i :: .symbol "." :: more) =
        .error .unexpected := by
      have hjoined : joined l (depth + 1) (.symbol "." :: more) = .error .unexpected :=
        bind_error (hfactor ▸ factor_period hmore)
      refine (bind_ok (keywords_present h)).trans ?_
      exact bind_error (commaList_error hjoined)
    have hnone : (pure [] : Reader (List Item)) (depth + 1) (.word i :: .symbol "." :: more) =
        .ok ([], .word i :: .symbol "." :: more) := rfl
    refine (bind_ok (repeats_absent (habsent _ (by decide)) (habsent _ (by decide)))).trans ?_
    refine (bind_ok (clause_absent (habsent _ (by decide)))).trans ?_
    refine (bind_ok (sees_present h)).trans ?_
    refine (bind_ok hnone).trans ?_
    refine (bind_ok (clause_absent (habsent _ (by decide)))).trans ?_
    exact bind_error hfrom

/-- The star of a name that starts with such a word is not read. -/
theorem sentences?_listWord {k : String} (h : ids ≠ []) (hk : k ∈ listWords)
    (hfirst : ahead? (partTokens ids) = some k) :
    sentences? (.plain "SELECT" :: (partTokens ids ++
      .symbol "." :: .symbol "*" :: .plain "FROM" :: partTokens ids)) = none := by
  obtain ⟨i, rest, rfl⟩ := List.exists_cons_of_ne_nil h
  obtain ⟨more, hmore, -⟩ := partTokens_cons i rest
  obtain ⟨after, hafter, hnext⟩ : ∃ after, partTokens (i :: rest) ++
      .symbol "." :: .symbol "*" :: .plain "FROM" :: partTokens (i :: rest) =
        .word i :: .symbol "." :: after ∧
          ((∃ j ts, after = .word j :: ts) ∨ ∃ ts, after = .symbol "*" :: ts) := by
    cases rest with
    | nil => exact ⟨_, rfl, .inr ⟨_, rfl⟩⟩
    | cons j rest =>
      obtain ⟨ts, hts, -⟩ := partTokens_cons j rest
      exact ⟨_, rfl, .inl ⟨j, _, (congrArg (· ++ _) hts).trans (List.cons_append ..)⟩⟩
  rw [hmore] at hfirst
  rw [hafter]
  exact sentences?_of_selectAfter (x := .error .unexpected) (g := fun _ => default)
    (selectAfter_of_listWord hk hfirst hnext rfl rfl)

end Grammar

end FlatQuery.Sql
