import FlatQuery.Proofs.Rows.Conditions
import FlatQuery.Proofs.Sql.Meaning
import FlatQuery.Proofs.Sql.Numbers
import FlatQuery.Proofs.Sql.Reading

/-!
# Integers in queries

Decimal notation of an integer in a query means that integer (`meaning_decimal`), so that a column
can be compared with it (`parse_comparisonText`, `passes_comparing`).  The one exception is the least
integer: its digits are read before the sign is turned, and they are out of range on their own
(`not_integers_comparable`).  Turning the sign itself is safe however often it is done, since what is
read from digits is never negative (`fits_neg`).
-/

namespace FlatQuery.Sql

open Integer (fits toText)
open Outcome

/-! ### Words in a text -/

theorem toList_joined_blank (s t : String) (rest : List String) :
    (Text.joined " " (s :: t :: rest)).toList =
      s.toList ++ ' ' :: (Text.joined " " (t :: rest)).toList := by
  have hblank : " ".toList = [' '] := by decide +kernel
  rw [Text.joined, String.toList_append, String.toList_append, hblank, List.append_assoc,
    List.singleton_append]
  exact List.cons_ne_nil _ _

/-- Words with blanks between them start with the first and end with the last of them. -/
theorem trimmed_joined_blank : ∀ {texts : List String}, texts ≠ [] →
    (∀ s ∈ texts, s.toList ≠ [] ∧ Text.Trimmed s.toList) →
      (Text.joined " " texts).toList ≠ [] ∧ Text.Trimmed (Text.joined " " texts).toList
  | [], h, _ => absurd rfl h
  | [s], _, h => h s (List.mem_cons_self ..)
  | s :: t :: rest, _, h => by
    obtain ⟨⟨hne, hs⟩, hrest⟩ := List.forall_mem_cons.mp h
    obtain ⟨hne', hlast⟩ := trimmed_joined_blank (List.cons_ne_nil t rest) hrest
    rw [toList_joined_blank]
    refine ⟨List.append_ne_nil_of_left_ne_nil hne _, fun c hc => hs.1 c ?_,
      fun c hc => hlast.2 c ?_⟩
    · rwa [List.head?_append_of_ne_nil _ hne] at hc
    · rwa [List.getLast?_append_cons, List.getLast?_cons_of_ne_nil hne'] at hc

theorem scans_joined_word {aw : Bool} (word t : String) (rest : List String) {ts : List Token}
    (hword : IsWord word.toList) (h : Scans false (Text.joined " " (t :: rest)).toList ts) :
    Scans aw (Text.joined " " (word :: t :: rest)).toList (.plain word :: ts) := by
  rw [toList_joined_blank]
  exact scans_word word hword h

theorem scans_joined_comparison {op : BinaryOp} (hop : op.Compares) (t : String)
    (rest : List String) {ts : List Token}
    (h : Scans false (Text.joined " " (t :: rest)).toList ts) :
    Scans false (Text.joined " " (op.symbol :: t :: rest)).toList (.symbol op.symbol :: ts) := by
  have hsymbol : ∀ {c : Char} (cs : List Char) {more : List Char} {s : String}, Scans false more ts →
      takeToken false c (cs ++ ' ' :: more) = some (some (.symbol s), ' ' :: more) →
        Scans false (c :: cs ++ ' ' :: more) (.symbol s :: ts) :=
    fun _ _ _ h htake => .step htake (by simp) (scans_blank h)
  rw [toList_joined_blank]
  cases hop with
  | equal => exact hsymbol [] h rfl
  | notEqual => exact hsymbol ['>'] h rfl
  | less => exact hsymbol [] h rfl
  | atMost => exact hsymbol ['='] h rfl
  | greater => exact hsymbol [] h rfl
  | atLeast => exact hsymbol ['='] h rfl

/-! ### Comparisons in a text -/

/-- A query whose condition compares a column with an integer in decimal notation. -/
def comparisonText (op : BinaryOp) (v : Int) : String :=
  Text.joined " " ["SELECT", "a", "FROM", "t", "WHERE", "a", op.symbol, toText v]

def comparisonTokens (op : BinaryOp) (v : Int) : List Token :=
  .plain "SELECT" :: .plain "a" :: .plain "FROM" :: .plain "t" :: .plain "WHERE" :: .plain "a" ::
    .symbol op.symbol :: decimalTokens v

theorem scan_comparisonText {op : BinaryOp} (hop : op.Compares) (v : Int) :
    scan (comparisonText op v) = some (comparisonTokens op v) := by
  have hcondition : Scans false (Text.joined " " ["a", op.symbol, toText v]).toList
      (.plain "a" :: .symbol op.symbol :: decimalTokens v) :=
    scans_joined_word _ _ _ (by decide) (scans_joined_comparison hop _ _ (scans_toText v))
  have hsource : Scans false
      (Text.joined " " ["FROM", "t", "WHERE", "a", op.symbol, toText v]).toList _ :=
    scans_joined_word _ _ _ (by decide) (scans_joined_word _ _ _ (by decide)
      (scans_joined_word _ _ _ (by decide) hcondition))
  exact scan_of_scans (scans_joined_word _ _ _ (by decide)
    (scans_joined_word _ _ _ (by decide) hsource))

theorem trim_comparisonText {op : BinaryOp} (hop : op.Compares) (v : Int) :
    (comparisonText op v).toList ≠ [] ∧ Text.trim (comparisonText op v) = comparisonText op v := by
  have hword : ∀ {word : String}, IsWord word.toList →
      word.toList ≠ [] ∧ Text.Trimmed word.toList := by
    intro word hword
    obtain ⟨c, cs, hcs, -⟩ := exists_cons_of_isWord hword
    exact ⟨by rw [hcs]; exact List.cons_ne_nil _ _, trimmed_of_isWord hword⟩
  have hsymbol : op.symbol.toList ≠ [] ∧ Text.Trimmed op.symbol.toList := by
    have hblank : op.symbol.toList ≠ [] ∧ op.symbol.toList.all (!Text.isBlank ·) = true := by
      cases hop <;> decide +kernel
    refine ⟨hblank.1, Text.trimmed_of_all fun d hd => ?_⟩
    simpa using List.all_eq_true.mp hblank.2 d hd
  have hvalue : (toText v).toList ≠ [] ∧ Text.Trimmed (toText v).toList :=
    ⟨(Integer.numeral_toText v).ne_nil, (Integer.numeral_toText v).trimmed⟩
  have htexts : ∀ s ∈ ["SELECT", "a", "FROM", "t", "WHERE", "a", op.symbol, toText v],
      s.toList ≠ [] ∧ Text.Trimmed s.toList := by
    simp only [List.forall_mem_cons, List.not_mem_nil, false_imp_iff, implies_true, and_true]
    exact ⟨hword (by decide), hword (by decide), hword (by decide), hword (by decide),
      hword (by decide), hword (by decide), hsymbol, hvalue⟩
  obtain ⟨hne, htrimmed⟩ := trimmed_joined_blank (List.cons_ne_nil _ _) htexts
  refine ⟨hne, ?_⟩
  rw [Text.trim, comparisonText, Text.trimChars_of_trimmed htrimmed, String.ofList_toList]

/-! ### What the comparison means -/

def Phrase.decimal (v : Int) : Phrase :=
  if v < 0 then .negated (.number (toText (-v)) false) else .number (toText v) false

/-- The query for one column of one table, with some condition. -/
def asking (condition : Expr) : Select where
  items := [.expr (.column { column := "a" })]
  sources := [.table "t"]
  condition := some condition

def askingWith (p : Phrase) : QuerySentence where
  body := .select {
    items := [.expr (.name { value := "a" })]
    sources := Grammar.only { head := .table [{ value := "t" }] {} }
    condition := some p }

theorem meaning_askingWith (p : Phrase) : (askingWith p).meaning = p.meaning.map asking := by
  have hcondition : (some p).mapM (·.meaning) = p.meaning.map some :=
    Option.mapM_some p Phrase.meaning
  unfold QuerySentence.meaning askingWith
  dsimp only
  rw [hcondition]
  cases p.meaning with
  | error e => rfl
  | ok e => rfl

theorem sentences?_comparisonTokens {op : BinaryOp} (hop : op.Compares) (v : Int) :
    Grammar.sentences? (comparisonTokens op v) =
      some [.query (askingWith (.binary (.name { value := "a" }) op.symbol (.decimal v)))] := by
  unfold comparisonTokens decimalTokens Phrase.decimal
  split
  · cases hop <;> rfl
  · cases hop <;> rfl

theorem meaning_comparison {op : BinaryOp} (hop : op.Compares) (p : Phrase) :
    (Phrase.binary (.name { value := "a" }) op.symbol p).meaning =
      p.meaning.map (.binary (.column { column := "a" }) op) := by
  have hsymbol : BinaryOp.ofSymbol? op.symbol = some op := by
    cases hop <;> rfl
  rw [Phrase.meaning, hsymbol]
  cases p.meaning with
  | error e => rfl
  | ok e => rfl

/-- Whatever the parser is: where it reads a query as the comparison of a column with a phrase, the
query means what the phrase means. -/
theorem parse_of_reads_comparison [Parser] {text : String} {op : BinaryOp} {p : Phrase}
    (hop : op.Compares) (hsome : (Text.trim text).isEmpty = false)
    (h : Reads text (askingWith (.binary (.name { value := "a" }) op.symbol p))) :
    parse text = p.meaning.map fun e => asking (.binary (.column { column := "a" }) op e) := by
  rw [parse_of_sentence hsome h]
  refine (meaning_askingWith _).trans ?_
  rw [meaning_comparison hop]
  cases p.meaning with
  | error e => rfl
  | ok e => rfl

/-- A query that compares a column with an integer means what the notation of the integer means. -/
theorem parse_comparisonText {op : BinaryOp} (hop : op.Compares) (v : Int) :
    parse (comparisonText op v) = (Phrase.decimal v).meaning.map fun e =>
      asking (.binary (.column { column := "a" }) op e) := by
  obtain ⟨hne, htrim⟩ := trim_comparisonText hop v
  have hread : Reads (comparisonText op v)
      (askingWith (.binary (.name { value := "a" }) op.symbol (.decimal v))) := by
    show (scan (Text.trim (comparisonText op v))).bind Grammar.sentences? = _
    rw [htrim, scan_comparisonText hop, Option.bind_some, sentences?_comparisonTokens hop]
  refine parse_of_reads_comparison hop (Bool.eq_false_iff.mpr fun hempty => hne ?_) hread
  rw [htrim] at hempty
  rw [String.isEmpty_iff.mp hempty]
  rfl

/-- Decimal notation means the integer, unless its digits alone are out of range. -/
theorem meaning_decimal {v : Int} (hv : fits v = true) : (Phrase.decimal v).meaning =
    if v = -9223372036854775808 then .error (.notInteger "9223372036854775808")
    else .ok (.literal (.integer v)) := by
  obtain ⟨hlow, hhigh⟩ := Integer.fits_iff.mp hv
  have hread : ∀ n : Int, 0 ≤ n → n ≤ 9223372036854775807 → Integer.ofText? (toText n) = some n :=
    fun n h h' => (Integer.ofText_toText n).trans
      (Integer.checked_eq_some_iff.mpr ⟨Integer.fits_iff.mpr ⟨by omega, h'⟩, rfl⟩)
  split
  case isTrue h =>
    subst h
    rfl
  case isFalse h =>
    unfold Phrase.decimal
    split
    · rw [Phrase.meaning_of_integer? (n := v)]
      rw [Phrase.integer?, Phrase.integer?, hread (-v) (by omega) (by omega), Option.map_some,
        Int.neg_neg]
    · exact Phrase.meaning_of_integer? (hread v (by omega) hhigh)

def Phrase.signed (p : Phrase) : Nat → Phrase
  | 0 => p
  | k + 1 => .negated (p.signed k)

section Signed

variable {digits : String} {long : Bool} {n : Int}

/-- A chain of minus signs turns the sign of a number as often. -/
theorem meaning_signed (h : Integer.ofText? digits = some n) (k : Nat) :
    ((Phrase.number digits long).signed k).meaning =
      .ok (.literal (.integer (if k % 2 = 0 then n else -n))) := by
  refine Phrase.meaning_of_integer? ?_
  induction k with
  | zero => exact h
  | succ k ih =>
    have hturn : -(if k % 2 = 0 then n else -n) = if (k + 1) % 2 = 0 then n else -n := by
      split <;> split <;> omega
    rw [Phrase.signed, Phrase.integer?, ih, Option.map_some, hturn]

theorem meaning_signed_of_none (h : Integer.ofText? digits = none) (k : Nat) :
    ((Phrase.number digits long).signed k).meaning = .error (.notInteger digits) := by
  induction k with
  | zero => rw [Phrase.signed, Phrase.meaning, h]
  | succ k ih => rw [Phrase.signed, Phrase.meaning, ih]; rfl

/-- A number of a text may have its sign turned without leaving the range. -/
theorem fits_neg (hdigits : Unsigned digits.toList) (h : Integer.ofText? digits = some n) :
    0 ≤ n ∧ fits n = true ∧ fits (-n) = true := by
  have hn : 0 ≤ n := Integer.nonneg_of_ofText hdigits h
  have hfits : fits n = true := (Integer.ofChars_eq_some_iff.mp h).1
  obtain ⟨-, hhigh⟩ := Integer.fits_iff.mp hfits
  exact ⟨hn, hfits, Integer.fits_iff.mpr ⟨by omega, by omega⟩⟩

end Signed

/-- The condition that compares a column with an integer. -/
def comparing (op : BinaryOp) (v : Int) : Expr :=
  .binary (.column { column := "a" }) op (.literal (.integer v))

/-- The comparison holds of a row if the integer in the field stands in the relation. -/
theorem passes_comparing {op : BinaryOp} (hop : op.Compares) {v w : Int} {s : Scope} {t : Term}
    (ht : s.bind (comparing op v) = .ok t) {row : Row} {text : String}
    (htext : s.value row { column := "a" } = some text) (hw : Integer.ofField? text = some w)
    (b : Bool) : t.holds row = .ok b ↔ (b = true ↔ op.Relates w v) := by
  obtain ⟨relation, hrelation⟩ := Option.isSome_iff_exists.mp (BinaryOp.compares_iff.mp hop)
  have hconnective : op.connective? = none := by cases hop <;> rfl
  have htruth : (comparing op v).truth (s.value row) = some (relation w v) := by
    simp only [comparing, Expr.truth, hconnective, hrelation, Expr.number, htext, hw,
      Option.bind_some, Literal.value, toOption_ok, Option.map_some]
  rw [← toOption_eq_some_iff, Scope.toOption_holds ht, htruth, Option.some.injEq,
    ← BinaryOp.relates_iff hrelation, Bool.eq_iff_iff]
  exact Iff.comm

/-- **Every integer but the least can be written in a query.**  What a field writes is in range.  The
decimal notation of each integer in range means that integer, except that of the least one; so a
query may compare a column with it, and the comparison holds of the rows whose field stands in the
relation.  A number of a text either is refused for its digits, however many minus signs stand
before it, or is read as an integer that may be turned back and forth without leaving the range, as
each of the signs does. -/
theorem integers_comparable (v : Int) (field query : String) :
    (Integer.ofField? field = some v → fits v = true) ∧
      (fits v = true → v ≠ -9223372036854775808 →
        (Phrase.decimal v).meaning = .ok (.literal (.integer v)) ∧
          ∀ op : BinaryOp, op.Compares →
            parse (comparisonText op v) = .ok (asking (comparing op v)) ∧
              ∀ s t, Scope.bind s (comparing op v) = .ok t → ∀ row text w,
                s.value row { column := "a" } = some text → Integer.ofField? text = some w →
                  ∀ b, Term.passes (some t) row = .ok b ↔ (b = true ↔ op.Relates w v)) ∧
      ∀ ts digits long, scan query = some ts → Token.number digits long ∈ ts →
        (∀ k, ((Phrase.number digits long).signed k).meaning = .error (.notInteger digits)) ∨
          ∃ n, 0 ≤ n ∧ fits n = true ∧ fits (-n) = true ∧
            ∀ k, ((Phrase.number digits long).signed k).meaning =
              .ok (.literal (.integer (if k % 2 = 0 then n else -n))) := by
  refine ⟨Integer.fits_of_ofField, ?_, ?_⟩
  · intro hv hleast
    have hmeaning : (Phrase.decimal v).meaning = .ok (.literal (.integer v)) := by
      rw [meaning_decimal hv, if_neg hleast]
    refine ⟨hmeaning, fun op hop => ⟨?_, ?_⟩⟩
    · rw [parse_comparisonText hop, hmeaning]
      rfl
    · intro s t ht row text w htext hw b
      exact passes_comparing hop ht htext hw b
  · intro ts digits long hscan hmem
    have hdigits := unsigned_of_scan hscan hmem
    cases h : Integer.ofText? digits with
    | none => exact .inl (meaning_signed_of_none h)
    | some n =>
      obtain ⟨hn, hfits, hneg⟩ := fits_neg hdigits h
      exact .inr ⟨n, hn, hfits, hneg, meaning_signed h⟩

/-- The integer after the least one, with which a field that holds the least one is compared. -/
theorem integers_comparable_sample :
    parse "SELECT a FROM t WHERE a < -9223372036854775807" =
        .ok (asking (comparing .less (-9223372036854775807))) ∧
      (∃ t, Scope.bind (.single ⟨"t", ["a"]⟩) (comparing .less (-9223372036854775807)) = .ok t ∧
        Term.passes (some t) ⟨["-9223372036854775808"]⟩ = .ok true) ∧
      ((Phrase.number "9223372036854775807" false).signed 3).meaning =
        .ok (.literal (.integer (-9223372036854775807))) := by
  obtain ⟨-, hcompare, hsigned⟩ :=
    integers_comparable (-9223372036854775807) "-9223372036854775807" "9223372036854775807"
  obtain ⟨-, hparse⟩ := hcompare (by decide) (by decide)
  obtain ⟨htext, hholds⟩ := hparse .less .less
  have hfield : Integer.ofField? "-9223372036854775808" = some (-9223372036854775808) := by
    decide +kernel
  have hvalue : Scope.value (.single ⟨"t", ["a"]⟩) ⟨["-9223372036854775808"]⟩ { column := "a" } =
      some "-9223372036854775808" := by
    decide +kernel
  refine ⟨?_, ?_, ?_⟩
  · rw [← htext]
    exact congrArg parse (by decide +kernel)
  · refine ⟨.binary (.field 0 "a") .less (.literal (.integer (-9223372036854775807))),
      by decide +kernel, (hholds _ _ (by decide +kernel) _ _ _ hvalue hfield true).mpr ?_⟩
    exact iff_of_true rfl (show (-9223372036854775808 : Int) < -9223372036854775807 by decide)
  · have hscan : scan "9223372036854775807" = some [.number "9223372036854775807" false] := by
      decide +kernel
    have hread : Integer.ofText? "9223372036854775807" = some 9223372036854775807 := by
      decide +kernel
    obtain hnone | ⟨n, -, -, -, hk⟩ := hsigned _ _ _ hscan (List.mem_singleton_self _)
    · cases (hnone 0).symm.trans (Phrase.meaning_of_integer? (by exact hread))
    · have hn := (hk 0).symm.trans (Phrase.meaning_of_integer? (n := 9223372036854775807) hread)
      obtain rfl : n = 9223372036854775807 := by simpa using hn
      exact hk 3

/-- The least integer is what a field may hold, and cannot be written in a query. -/
theorem not_integers_comparable :
    Integer.ofField? "-9223372036854775808" = some (-9223372036854775808) ∧
      fits (-9223372036854775808) = true ∧
      (Phrase.decimal (-9223372036854775808)).meaning ≠
        .ok (.literal (.integer (-9223372036854775808))) ∧
      parse "SELECT a FROM t WHERE a = -9223372036854775808" =
        .error (.notInteger "9223372036854775808") := by
  have hmeaning : (Phrase.decimal (-9223372036854775808)).meaning =
      .error (.notInteger "9223372036854775808") :=
    meaning_decimal (by decide)
  have htext : comparisonText .equal (-9223372036854775808) =
      "SELECT a FROM t WHERE a = -9223372036854775808" := by
    decide +kernel
  refine ⟨by decide +kernel, by decide, ?_, ?_⟩
  · rw [hmeaning]
    nofun
  · rw [← htext, parse_comparisonText .equal, hmeaning]
    rfl

end FlatQuery.Sql
