import FlatQuery.Proofs.Catalog.Consistent
import FlatQuery.Proofs.Plan.Prepared
import FlatQuery.Proofs.Sql.Meaning
import FlatQuery.Proofs.Sql.Reading

/-!
# A name in a FROM list and before a star

A FROM list takes a name by its last part, without quotes; before a star a name is taken as it is
written out, with its quotes and its schema.  A name of one plain word is the same either way, so
`SELECT n.* FROM n` is planned as `SELECT * FROM n` is.  Any other name is longer when it is written
out than its last part is, and never names the table (`tableStar_of_name`).
-/

namespace FlatQuery.Sql

open Outcome Grammar

/-! ### What the sentences mean -/

/-- The name of the table that a name means in a FROM list. -/
def WrittenName.table (n : WrittenName) : String :=
  (n.parts.getLast n.ne_nil).value

/-- Whether the name is a single plain word, and none of those that may stand before the items. -/
def WrittenName.IsBare (n : WrittenName) : Prop :=
  ∃ word, n.parts = [{ value := word }] ∧ capitalised word ∉ listWords

variable {n : WrittenName} {q : Select}

/-- Nothing is trimmed off a text that ends in a name, and it is not empty. -/
theorem isEmpty_trim_of_name {s : String} {front : List Char}
    (htext : s.toList = 'S' :: front ++ n.text.toList) : (Text.trim s).isEmpty = false := by
  rw [trim_of_name n htext]
  cases hs : s.isEmpty with
  | false => rfl
  | true =>
    obtain rfl := String.isEmpty_iff.mp hs
    cases htext

theorem sentences?_of_scan {s : String} {front : List Char} {ts : List Token}
    (htext : s.toList = 'S' :: front ++ n.text.toList) (hscan : scan s = some ts) :
    Parser.sentences? (Text.trim s) = Grammar.sentences? ts := by
  rw [trim_of_name n htext]
  show (scan s).bind Grammar.sentences? = _
  rw [hscan, Option.bind_some]

/-- A text that ends in a name and is read as one statement means what that means. -/
theorem parse_of_sentences? {s : String} {front : List Char} {ts : List Token}
    (htext : s.toList = 'S' :: front ++ n.text.toList) (hscan : scan s = some ts) {i : Item}
    {x : Except Fault Factor}
    (hread : Grammar.sentences? ts = x.toOption.map fun f => [.query (selecting i f)]) :
    parse s = .ok q ↔ ∃ f, x = .ok f ∧ (selecting i f).meaning = .ok q := by
  rw [parse, isEmpty_trim_of_name htext, sentences?_of_scan htext hscan, hread]
  cases x with
  | error e => simp
  | ok f => simp [Sentence.meaning]

theorem eq_of_factorOf {ids : List Ident} {f : Factor} (h : factorOf ids = .ok f) :
    f = { head := .table ids {} } := by
  rw [factorOf] at h
  split at h
  · cases h
  · exact (Except.ok.inj h).symm

theorem meaning_only (n : WrittenName) :
    (only { head := .table n.parts {} }).mapM (·.meaning) = .ok [.table n.table] := by
  have hsource : ({ first := { head := .table n.parts {} } } : Joined).meaning =
      .ok (.table n.table) := by
    simp only [Joined.meaning, List.isEmpty_nil, if_true,
      List.getLast?_eq_getLast_of_ne_nil n.ne_nil]
    rfl
  rw [only, List.mapM_cons, hsource]
  rfl

theorem meaning_selecting (n : WrittenName) {i : Item} {item : SelectItem}
    (hi : i.meaning = .ok item) : (selecting i { head := .table n.parts {} }).meaning =
      .ok { items := [item], sources := [.table n.table] } := by
  have hitems : [i].mapM (·.meaning) = .ok [item] := by
    rw [List.mapM_cons, hi]
    rfl
  rw [selecting, QuerySentence.meaning]
  simp only [meaning_only n, hitems]
  rfl

theorem meaning_selecting_star (n : WrittenName) :
    (selecting (.star {}) { head := .table n.parts {} }).meaning =
      .ok { items := [.star], sources := [.table n.table] } :=
  meaning_selecting n rfl

theorem meaning_selecting_tableStar (n : WrittenName) :
    (selecting (.tableStar (dotted n.parts) {}) { head := .table n.parts {} }).meaning =
      .ok { items := [.tableStar (dotted n.parts)], sources := [.table n.table] } :=
  meaning_selecting n (by rw [Item.meaning, n.starTable_dotted])

theorem toList_star (n : WrittenName) : ("SELECT * FROM " ++ n.text).toList =
    'S' :: "ELECT * FROM ".toList ++ n.text.toList := by
  simp

theorem toList_tableStar (n : WrittenName) : ("SELECT " ++ n.text ++ ".* FROM " ++ n.text).toList =
    'S' :: ("ELECT " ++ n.text ++ ".* FROM ").toList ++ n.text.toList := by
  simp

theorem parse_star_of_name : parse ("SELECT * FROM " ++ n.text) = .ok q ↔
    factorOf n.parts = .ok { head := .table n.parts {} } ∧
      q = { items := [.star], sources := [.table n.table] } := by
  rw [parse_of_sentences? (toList_star n) (scan_star n) (sentences?_star n.ne_nil)]
  constructor
  · rintro ⟨f, hf, hmeaning⟩
    obtain rfl := eq_of_factorOf hf
    rw [meaning_selecting_star] at hmeaning
    exact ⟨hf, (Except.ok.inj hmeaning).symm⟩
  · rintro ⟨hsource, rfl⟩
    exact ⟨_, hsource, meaning_selecting_star n⟩

/-- The star of a name is read unless the name starts like what may stand before the items. -/
theorem parse_tableStar_of_name (h : factorOf n.parts = .ok { head := .table n.parts {} }) :
    parse ("SELECT " ++ n.text ++ ".* FROM " ++ n.text) = .ok q ↔
      (∀ k ∈ listWords, Reader.ahead? (partTokens n.parts) ≠ some k) ∧
        q = { items := [.tableStar (dotted n.parts)], sources := [.table n.table] } := by
  by_cases hfirst : ∀ k ∈ listWords, Reader.ahead? (partTokens n.parts) ≠ some k
  · rw [parse_of_sentences? (toList_tableStar n) (scan_tableStar n)
      (sentences?_tableStar n.ne_nil hfirst)]
    simp only [h, Except.ok.injEq, exists_eq_left', meaning_selecting_tableStar]
    exact ⟨fun hq => ⟨hfirst, hq.symm⟩, fun hq => hq.2.symm⟩
  · refine iff_of_false ?_ fun hq => hfirst hq.1
    push Not at hfirst
    obtain ⟨k, hk, hahead⟩ := hfirst
    have hread : Grammar.sentences? (.plain "SELECT" :: (partTokens n.parts ++
        .symbol "." :: .symbol "*" :: .plain "FROM" :: partTokens n.parts)) =
          (Except.error Fault.unexpected : Except Fault Factor).toOption.map
            fun f => [.query (selecting (.star {}) f)] :=
      sentences?_listWord n.ne_nil hk hahead
    rw [parse_of_sentences? (toList_tableStar n) (scan_tableStar n) hread]
    rintro ⟨f, hf, -⟩
    cases hf

theorem reads_star (h : factorOf n.parts = .ok { head := .table n.parts {} }) :
    Reads ("SELECT * FROM " ++ n.text) (selecting (.star {}) { head := .table n.parts {} }) := by
  rw [Reads, sentences?_of_scan (toList_star n) (scan_star n), sentences?_star n.ne_nil, h]
  rfl

theorem reads_tableStar (h : factorOf n.parts = .ok { head := .table n.parts {} })
    (hfirst : ∀ k ∈ listWords, Reader.ahead? (partTokens n.parts) ≠ some k) :
    Reads ("SELECT " ++ n.text ++ ".* FROM " ++ n.text)
      (selecting (.tableStar (dotted n.parts) {}) { head := .table n.parts {} }) := by
  rw [Reads, sentences?_of_scan (toList_tableStar n) (scan_tableStar n),
    sentences?_tableStar n.ne_nil hfirst, h]
  rfl

/-! ### Names written out -/

theorem sublist_escapeQuotes (q before : Char) (cs : List Char) :
    cs.Sublist (escapeQuotes q before cs) := by
  fun_induction escapeQuotes q before cs with
  | case1 => exact .slnil
  | case2 before c h => exact .cons_cons c (.cons c .slnil)
  | case3 before c h => exact List.Sublist.refl _
  | case4 d rest ih => exact .cons_cons q ih
  | case5 before rest h ih => exact .cons_cons q (.cons_cons q ih)
  | case6 before d rest h hd ih => exact .cons_cons q (.cons q ih)
  | case7 before c d rest h ih => exact .cons_cons c ih

theorem value_sublist_text (i : Ident) : i.value.toList.Sublist i.text.toList := by
  obtain ⟨value, quote⟩ := i
  cases quote with
  | none => exact List.Sublist.refl _
  | some q =>
    show value.toList.Sublist (quoted q value).toList
    rw [quoted, String.toList_ofList]
    exact .cons q ((sublist_escapeQuotes q _ _).trans (List.sublist_append_left _ _))

theorem length_quoted (value : String) (q : Char) :
    value.toList.length < (Ident.text { value, quote := some q }).toList.length := by
  show _ < (quoted q value).toList.length
  have hle := (sublist_escapeQuotes q '\x00' value.toList).length_le
  rw [quoted, String.toList_ofList, List.cons_append, List.length_cons, List.length_append]
  omega

theorem toList_dotted_cons (i j : Ident) (rest : List Ident) :
    (dotted (i :: j :: rest)).toList = i.text.toList ++ '.' :: (dotted (j :: rest)).toList := by
  show (i.text ++ "." ++ dotted (j :: rest)).toList = _
  simp

theorem value_sublist_dotted : ∀ {ids : List Ident} (h : ids ≠ []),
    (ids.getLast h).value.toList.Sublist (dotted ids).toList
  | [i], _ => value_sublist_text i
  | i :: j :: rest, _ => by
    have ih := value_sublist_dotted (List.cons_ne_nil j rest)
    rw [toList_dotted_cons, List.getLast_cons (List.cons_ne_nil j rest)]
    exact ih.trans ((List.sublist_cons_self ..).trans (List.sublist_append_right ..))

theorem length_lt_dotted {ids : List Ident} (h : ids ≠ [])
    (hplain : ∀ word, ids ≠ [{ value := word }]) :
    (ids.getLast h).value.toList.length < (dotted ids).toList.length := by
  match ids, h, hplain with
  | [{ value, quote := none }], _, hplain => exact absurd rfl (hplain value)
  | [{ value, quote := some q }], _, _ => exact length_quoted value q
  | i :: j :: rest, _, _ =>
    have hle := (value_sublist_dotted (List.cons_ne_nil j rest)).length_le
    rw [toList_dotted_cons, List.getLast_cons (List.cons_ne_nil j rest), List.length_append,
      List.length_cons]
    omega

/-! ### Canonical forms of different lengths -/

theorem length_lowerAfter (before cs : List Char) :
    (Text.lowerAfter before cs).length = cs.length + cs.count 'İ' := by
  induction cs generalizing before with
  | nil => rfl
  | cons c cs ih =>
    rw [Text.lowerAfter, List.length_append, ih, List.length_cons, List.count_cons]
    by_cases hc : c = 'İ'
    · simp only [Text.lowerIn, hc, beq_self_eq_true, if_true, List.length_cons, List.length_nil]
      omega
    · have hone : (Text.lowerIn before c cs).length = 1 := by
        simp only [Text.lowerIn, if_neg hc]
        split <;> rfl
      simp only [hone, beq_false_of_ne hc, Bool.false_eq_true, if_false]
      omega

theorem trimChars_sublist (cs : List Char) : (Text.trimChars cs).Sublist cs := by
  rw [Text.trimChars, Text.dropEndWhile_eq_rdropWhile]
  exact (List.rdropWhile_prefix _ _).sublist.trans (List.dropWhile_sublist _)

theorem length_canonical (s : String) : (Name.canonical s).toList.length =
    (Text.trimChars s.toList).length + (Text.trimChars s.toList).count 'İ' := by
  rw [Name.canonical, Text.lowercase, String.toList_ofList, length_lowerAfter, Text.trim,
    String.toList_ofList]

/-- A text that holds another and more has another canonical form, if nothing is trimmed off it. -/
theorem canonical_ne_of_sublist {s t : String} (ht : Text.Trimmed t.toList)
    (hsub : s.toList.Sublist t.toList) (hlt : s.toList.length < t.toList.length) :
    Name.canonical t ≠ Name.canonical s := by
  intro he
  have hlength := congrArg (fun u : String => u.toList.length) he
  simp only [length_canonical, Text.trimChars_of_trimmed ht] at hlength
  have hcount := ((trimChars_sublist s.toList).trans hsub).count_le 'İ'
  have hle := (trimChars_sublist s.toList).length_le
  omega

theorem WrittenName.canonical_dotted_ne (n : WrittenName)
    (hplain : ∀ word, n.parts ≠ [{ value := word }]) :
    Name.canonical (dotted n.parts) ≠ Name.canonical n.table :=
  canonical_ne_of_sublist n.trimmed_dotted (value_sublist_dotted n.ne_nil)
    (length_lt_dotted n.ne_nil hplain)

end FlatQuery.Sql

namespace FlatQuery.Plan

open Sql Grammar

variable {catalog : Catalog} {t : Table} {name : String}

/-! ### Plans over one table -/

theorem sourceTables_one (h : catalog.get name = .ok t) :
    sourceTables catalog [] [.table name] = .ok [t] :=
  sourceTables_eq_ok_iff.mpr
    ⟨.cons ⟨name, rfl, h⟩ .nil, List.nodup_singleton _, fun _ _ => List.not_mem_nil⟩

/-- The plan for the star of a table under a given name, over a table alone. -/
theorem ofSelect_tableStar (h : catalog.get name = .ok t) (star : String) :
    ofSelect catalog { items := [.tableStar star], sources := [.table name] } =
      if t.name = Name.canonical star then .ok (.scan t)
      else .error (.starOfOther (Name.canonical star)) := by
  have hlist : SelectList.analyse [.tableStar star] [] =
      .ok (.star (some (Name.canonical star))) := rfl
  have hbase : base [t] none = .ok (.scan t) := rfl
  have hselected : selected (.star (some (Name.canonical star))) [t] (.scan t) =
      if t.name = Name.canonical star then .ok (.scan t)
      else .error (.starOfOther (Name.canonical star)) := by
    by_cases hname : t.name = Name.canonical star
    · simp [selected, hname]
    · simp [selected, hname]
  have hplan : ofSelect catalog { items := [.tableStar star], sources := [.table name] } =
      (selected (.star (some (Name.canonical star))) [t] (.scan t) >>= fun plan =>
        ordered [] (deduplicated false plan)) := by
    simp only [ofSelect, hlist, sourceTables_one h, hbase, Outcome.ok_bind, List.isEmpty_cons,
      Bool.false_eq_true, if_false]
  rw [hplan, hselected]
  by_cases hname : t.name = Name.canonical star
  · rw [if_pos hname]
    rfl
  · rw [if_neg hname]
    rfl

theorem scan_of_star {p : Plan}
    (h : ofSelect catalog { items := [.star], sources := [.table name] } = .ok p) :
    ∃ t, catalog.get name = .ok t ∧ p = .scan t := by
  obtain ⟨list, tables, joined, chosen, hlist, -, htables, hjoined, hchosen, hordered⟩ :=
    ofSelect_eq_ok_iff.mp h
  obtain ⟨hall, -⟩ := sourceTables_eq_ok_iff.mp htables
  obtain ⟨t, rest, ⟨name', hname, hget⟩, hrest, rfl⟩ := List.forall₂_cons_left_iff.mp hall
  obtain rfl := List.forall₂_nil_left_iff.mp hrest
  obtain rfl := Source.table.inj hname
  cases hlist
  cases hjoined
  cases hchosen
  cases hordered
  exact ⟨t, hget, rfl⟩

/-! ### Both places -/

/-- The star of a name of a single plain word is planned as the star alone; that of any other name
is refused. -/
theorem ofSelect_starOfName {n : WrittenName} {p : Plan} (hc : catalog.Consistent)
    (hp : ofSelect catalog { items := [.star], sources := [.table n.table] } = .ok p) :
    let starred := ofSelect catalog
      { items := [.tableStar (dotted n.parts)], sources := [.table n.table] }
    (∀ word, n.parts = [{ value := word }] → starred = .ok p) ∧
      ((∀ word, n.parts ≠ [{ value := word }]) →
        starred = .error (.starOfOther (Name.canonical (dotted n.parts)))) := by
  obtain ⟨t, hget, rfl⟩ := scan_of_star hp
  have hname : t.name = Name.canonical n.table := (hc.get_eq_ok_iff.mp hget).2
  have hstar := ofSelect_tableStar hget (dotted n.parts)
  constructor
  · intro word hparts
    obtain ⟨parts, hne, hwritable⟩ := n
    obtain rfl : parts = [{ value := word }] := hparts
    exact hstar.trans (if_pos hname)
  · intro hplain
    exact hstar.trans (if_neg fun he => n.canonical_dotted_ne hplain (he.symm.trans hname))

/-- Whatever the parser is: where it reads the two queries as what they say and the one is planned,
the star of a name of a single plain word has the same plan, and that of any other name is
refused. -/
theorem tableStar_of_reads [Parser] {n : WrittenName} {text text' : String} {q : Select} {p : Plan}
    (hc : catalog.Consistent) (hsome' : (Text.trim text').isEmpty = false)
    (h : Reads text (selecting (.star {}) { head := .table n.parts {} }))
    (h' : Reads text' (selecting (.tableStar (dotted n.parts) {}) { head := .table n.parts {} }))
    (hq : parse text = .ok q) (hp : ofSelect catalog q = .ok p) :
    ∃ q', parse text' = .ok q' ∧
      (∀ word, n.parts = [{ value := word }] → ofSelect catalog q' = .ok p) ∧
      ((∀ word, n.parts ≠ [{ value := word }]) →
        ofSelect catalog q' = .error (.starOfOther (Name.canonical (dotted n.parts)))) := by
  have hmeaning : parse text = .ok { items := [.star], sources := [.table n.table] } := by
    obtain ⟨q', hq', hs⟩ := exists_reads hq
    have hsame := List.singleton_inj.mp (Option.some.inj (hq'.symm.trans h))
    rw [hq, ← hs, Sentence.query.inj hsame, meaning_selecting_star]
  obtain rfl := Except.ok.inj (hq.symm.trans hmeaning)
  exact ⟨_, (parse_of_sentence hsome' h').trans (meaning_selecting_tableStar n),
    ofSelect_starOfName hc hp⟩

/-- **A name before a star.**  Let `SELECT * FROM n` be planned over a consistent catalog.  If the
name is a single plain word, and none of those that may stand before the items, then
`SELECT n.* FROM n` is read and has the same plan, and so the same columns and rows.  Any other
name, if its star is read at all, is refused there as that of a table that is not read from. -/
theorem tableStar_of_name {n : WrittenName} {q : Select} {p : Plan} (hc : catalog.Consistent)
    (hq : parse ("SELECT * FROM " ++ n.text) = .ok q) (hp : ofSelect catalog q = .ok p) :
    (n.IsBare → ∃ q', parse ("SELECT " ++ n.text ++ ".* FROM " ++ n.text) = .ok q' ∧
      ofSelect catalog q' = .ok p ∧ ∀ fs, prepare fs catalog q' = prepare fs catalog q) ∧
    (¬ n.IsBare → ∀ q', parse ("SELECT " ++ n.text ++ ".* FROM " ++ n.text) = .ok q' →
      ofSelect catalog q' = .error (.starOfOther (Name.canonical (dotted n.parts)))) := by
  have hsource := (parse_star_of_name.mp hq).1
  have hread := fun hfirst => tableStar_of_reads hc (isEmpty_trim_of_name (toList_tableStar n))
    (reads_star hsource) (reads_tableStar hsource hfirst) hq hp
  constructor
  · rintro ⟨word, hparts, hlist⟩
    have hfirst : ∀ k ∈ listWords, Reader.ahead? (partTokens n.parts) ≠ some k := by
      rw [hparts]
      exact fun k hk he => hlist (Option.some.inj he ▸ hk)
    obtain ⟨q', hq', hword, -⟩ := hread hfirst
    have hplan := hword word hparts
    refine ⟨q', hq', hplan, fun fs => ?_⟩
    rw [prepare, prepare, hplan, hp]
  · intro hbare q' hq'
    have hfirst := ((parse_tableStar_of_name hsource).mp hq').1
    obtain ⟨q'', hq'', -, hother⟩ := hread hfirst
    obtain rfl := Except.ok.inj (hq''.symm.trans hq')
    refine hother fun word hparts => hbare ⟨word, hparts, fun hlist => hfirst _ hlist ?_⟩
    rw [hparts]
    rfl

/-! ### A table of one column -/

def soleTable : Table :=
  { id := 1, name := "t", columns := [{ name := "a" }], dataFile := ⟨"db/t.csv"⟩ }

def soleCatalog : Catalog :=
  Catalog.grow {} soleTable

theorem consistent_soleCatalog : soleCatalog.Consistent :=
  (Catalog.Consistent.empty none).add (by decide) (by decide) (by decide) (by decide) (by decide)
    (by decide)

/-- The name of the table as a plain word, in capitals. -/
def plainName : WrittenName where
  parts := [{ value := "T" }]
  ne_nil := by decide
  writable := by decide

def quotedName : WrittenName where
  parts := [{ value := "t", quote := some '"' }]
  ne_nil := by decide
  writable := by decide

/-- A plain word names the table in both places. -/
theorem tableStar_of_name_sample :
    (soleCatalog.Consistent ∧ plainName.text = "T" ∧
      parse ("SELECT * FROM " ++ plainName.text) =
        .ok { items := [.star], sources := [.table "T"] } ∧
      ofSelect soleCatalog { items := [.star], sources := [.table "T"] } =
        .ok (.scan soleTable)) ∧
    (plainName.IsBare →
      ∃ q', parse ("SELECT " ++ plainName.text ++ ".* FROM " ++ plainName.text) = .ok q' ∧
        ofSelect soleCatalog q' = .ok (.scan soleTable) ∧
        ∀ fs, prepare fs soleCatalog q' =
          prepare fs soleCatalog { items := [.star], sources := [.table "T"] }) ∧
    (¬ plainName.IsBare →
      ∀ q', parse ("SELECT " ++ plainName.text ++ ".* FROM " ++ plainName.text) = .ok q' →
        ofSelect soleCatalog q' =
          .error (.starOfOther (Name.canonical (dotted plainName.parts)))) := by
  have hq : parse ("SELECT * FROM " ++ plainName.text) =
      .ok { items := [.star], sources := [.table "T"] } :=
    parse_star_of_name.mpr ⟨by decide, rfl⟩
  have hp : ofSelect soleCatalog { items := [.star], sources := [.table "T"] } =
      .ok (.scan soleTable) := rfl
  exact ⟨⟨consistent_soleCatalog, rfl, hq, hp⟩, tableStar_of_name consistent_soleCatalog hq hp⟩

/-- Between quotes the name of a table does not name it before a star. -/
theorem not_tableStar_of_name :
    ¬ ∀ (catalog : Catalog) (n : WrittenName) (q : Select) (p : Plan), catalog.Consistent →
      parse ("SELECT * FROM " ++ n.text) = .ok q → ofSelect catalog q = .ok p →
      ∃ q' p', parse ("SELECT " ++ n.text ++ ".* FROM " ++ n.text) = .ok q' ∧
        ofSelect catalog q' = .ok p' ∧ p'.labels = p.labels ∧
        ∀ fs c c', p.instantiate fs = .ok c → p'.instantiate fs = .ok c' →
          (c'.drain fs).1 = (c.drain fs).1 := by
  intro hall
  have hq : parse ("SELECT * FROM " ++ quotedName.text) =
      .ok { items := [.star], sources := [.table "t"] } :=
    parse_star_of_name.mpr ⟨by decide, rfl⟩
  have hget : soleCatalog.get "t" = .ok soleTable := rfl
  have hp : ofSelect soleCatalog { items := [.star], sources := [.table "t"] } =
      .ok (.scan soleTable) := rfl
  obtain ⟨q', p', hq', hp', -⟩ := hall soleCatalog quotedName _ _ consistent_soleCatalog hq hp
  obtain ⟨-, rfl⟩ := (parse_tableStar_of_name (by decide)).mp hq'
  have hstar := ofSelect_tableStar hget (dotted quotedName.parts)
  have hother : soleTable.name ≠ Name.canonical (dotted quotedName.parts) := by decide
  rw [if_neg hother] at hstar
  cases hp'.symm.trans hstar

end FlatQuery.Plan
