import FlatQuery.Proofs.Sql.WrittenName

/-!
# Written names in tokens

Cut into tokens a written name gives its parts with periods between them, if nothing that follows
runs into it (`scans_parts`): so `SELECT * FROM n` and `SELECT n.* FROM n` are cut as they look
(`scan_star`, `scan_tableStar`).
-/

namespace FlatQuery.Sql

open Integer (isDigit)

/-! ### Steps -/

/-- Whether a name ends before the characters: at the end of the text, at a blank or at a period. -/
def EndsName (more : List Char) : Prop :=
  ∀ c ∈ more.head?, c = ' ' ∨ c = '.'

theorem endsName_nil : EndsName [] := nofun

theorem endsName_blank (more : List Char) : EndsName (' ' :: more) := by
  rintro c ⟨⟩
  exact .inl rfl

theorem endsName_period (more : List Char) : EndsName ('.' :: more) := by
  rintro c ⟨⟩
  exact .inr rfl

theorem EndsName.not_continues {more : List Char} (h : EndsName more) :
    ∀ c ∈ more.head?, continuesWord c = false := by
  intro c hc
  obtain rfl | rfl := h c hc <;> decide

theorem takeWhile_of_head {p : Char → Bool} {cs : List Char} (h : ∀ c ∈ cs.head?, p c = false) :
    cs.takeWhile p = [] ∧ cs.dropWhile p = cs := by
  cases cs with
  | nil => exact ⟨rfl, rfl⟩
  | cons c cs =>
    have hc : ¬ p c = true := Bool.eq_false_iff.mp (h c rfl)
    exact ⟨List.takeWhile_cons_of_neg hc, List.dropWhile_cons_of_neg hc⟩

theorem takeWord_append {front rest more : List Char}
    (hrest : ∀ c ∈ rest, continuesWord c = true) (hmore : EndsName more) :
    takeWord front (rest ++ more) =
      (some (.word { value := String.ofList (front ++ rest) }), more) := by
  obtain ⟨htake, hdrop⟩ := takeWhile_of_head hmore.not_continues
  rw [takeWord, List.takeWhile_append_of_pos hrest, List.dropWhile_append_of_pos hrest, htake,
    hdrop, List.append_nil]

theorem takeLetter_append {c : Char} {rest more : List Char}
    (hrest : ∀ d ∈ rest, continuesWord d = true) (hmore : EndsName more) :
    takeLetter c (rest ++ more) =
      some (some (.word { value := String.ofList (c :: rest) }), more) := by
  have hhead : ∀ d ∈ (rest ++ more).head?, d ≠ '\'' ∧ d ≠ '"' ∧ d ≠ '&' := by
    cases rest with
    | nil =>
      intro d hd
      obtain rfl | rfl := hmore d hd <;> decide
    | cons e rest =>
      rintro d ⟨⟩
      have he := hrest e (List.mem_cons_self ..)
      exact ⟨ne_of_continuesWord he (by decide), ne_of_continuesWord he (by decide),
        ne_of_continuesWord he (by decide)⟩
  have hword : takeWord [c] (rest ++ more) = _ := takeWord_append hrest hmore
  unfold takeLetter
  split
  case h_1 body hb => exact absurd rfl (hhead '\'' (by rw [hb]; rfl)).1
  case h_2 body hb => exact absurd rfl (hhead '"' (by rw [hb]; rfl)).2.1
  case h_3 body hb => exact absurd rfl (hhead '&' (by rw [hb]; rfl)).2.2
  case h_4 => rw [hword]; rfl

theorem takeSharp_append {d : Char} {rest more : List Char} (hd : continuesWord d = true)
    (hrest : ∀ d ∈ rest, continuesWord d = true) (hmore : EndsName more) :
    takeSharp (d :: rest ++ more) =
      (some (.word { value := String.ofList ('#' :: d :: rest) }), more) := by
  have h1 : d ≠ ' ' := ne_of_continuesWord hd (by decide)
  have h2 : d ≠ '-' := ne_of_continuesWord hd (by decide)
  have h3 : d ≠ '>' := ne_of_continuesWord hd (by decide)
  simp [takeSharp, h1, h2, h3, takeWord_append hrest hmore]

theorem takeAt_append {rest more : List Char} (hsign : rest ∉ [[], ['@']])
    (hrest : ∀ d ∈ rest, continuesWord d = true) (hmore : EndsName more) :
    takeAt (rest ++ more) = (some (.word { value := String.ofList ('@' :: rest) }), more) := by
  cases rest with
  | nil => exact absurd (List.mem_cons_self ..) hsign
  | cons d rest =>
    obtain ⟨hd, htail⟩ := List.forall_mem_cons.mp hrest
    by_cases hat : d = '@'
    · subst hat
      cases rest with
      | nil => exact absurd (by decide) hsign
      | cons e rest =>
        obtain ⟨he, hmost⟩ := List.forall_mem_cons.mp htail
        have hblank : e ≠ ' ' := ne_of_continuesWord he (by decide)
        simp only [takeAt, List.cons_append, hblank, if_false]
        exact takeWord_append hmost hmore
    · have h1 : d ≠ '>' := ne_of_continuesWord hd (by decide)
      have h2 : d ≠ '?' := ne_of_continuesWord hd (by decide)
      have h3 : d ≠ ' ' := ne_of_continuesWord hd (by decide)
      have h4 : d ≠ '\'' := ne_of_continuesWord hd (by decide)
      have h5 : d ≠ '"' := ne_of_continuesWord hd (by decide)
      have h6 : d ≠ '`' := ne_of_continuesWord hd (by decide)
      have htake : takeAt (d :: (rest ++ more)) = takeWord ['@', d] (rest ++ more) := by
        simp [takeAt, hat, h1, h2, h3, h4, h5, h6]
      exact htake.trans (takeWord_append htail hmore)

theorem takeToken_word {aw : Bool} {c : Char} {rest more : List Char} (h : IsWord (c :: rest))
    (hmore : EndsName more) : takeToken aw c (rest ++ more) =
      some (some (.word { value := String.ofList (c :: rest) }), more) := by
  obtain ⟨hstart, hall, hsign⟩ := h
  have hstart : startsWord c = true := hstart
  obtain ⟨-, hrest⟩ := List.forall_mem_cons.mp (List.all_eq_true.mp hall)
  unfold takeToken
  split
  case isTrue hc =>
    subst hc
    cases rest with
    | nil => exact absurd (by decide) hsign
    | cons d rest =>
      obtain ⟨hd, hrest⟩ := List.forall_mem_cons.mp hrest
      rw [takeSharp_append hd hrest hmore]
  case isFalse =>
    split
    case isTrue hc =>
      subst hc
      rw [takeAt_append ?_ hrest hmore]
      intro hmem
      refine hsign (List.mem_cons_of_mem _ ?_)
      simpa using hmem
    case isFalse => exact takeLetter_append hrest hmore

theorem takeQuoted_doubled {q : Char} {more : List Char} (hmore : ∀ c ∈ more.head?, c ≠ q)
    (cs : List Char) : takeQuoted q (doubled q cs ++ q :: more) = some (cs, more) := by
  induction cs with
  | nil =>
    cases more with
    | nil => simp [doubled, takeQuoted]
    | cons d more => simp [doubled, takeQuoted, hmore d rfl]
  | cons c cs ih =>
    by_cases hc : c = q
    · subst hc
      have hcons : doubled c (c :: cs) ++ c :: more = c :: c :: (doubled c cs ++ c :: more) := by
        simp [doubled]
      rw [hcons, takeQuoted, if_pos rfl, if_pos rfl, ih]
      rfl
    · have hcons : doubled q (c :: cs) ++ q :: more = c :: (doubled q cs ++ q :: more) := by
        simp [doubled, hc]
      rw [hcons]
      obtain ⟨d, rest, hrest⟩ : ∃ d rest, doubled q cs ++ q :: more = d :: rest :=
        List.exists_cons_of_ne_nil (by simp)
      rw [hrest, takeQuoted, if_neg hc, ← hrest, ih]
      rfl

theorem takeToken_quoted {aw : Bool} {q : Char} {more : List Char} (hq : q = '"' ∨ q = '`')
    (hmore : EndsName more) (cs : List Char) : takeToken aw q (doubled q cs ++ q :: more) =
      some (some (.word { value := String.ofList cs, quote := some q }), more) := by
  have hne : ∀ c ∈ more.head?, c ≠ q := by
    intro c hc
    obtain rfl | rfl := hmore c hc <;> obtain rfl | rfl := hq <;> decide
  have htake := takeQuoted_doubled hne cs
  obtain rfl | rfl := hq
  · simp [takeToken, htake, show startsWord '"' = false from by decide]
  · simp [takeToken, htake, show startsWord '`' = false from by decide]

theorem takeToken_blank (aw : Bool) (rest : List Char) :
    takeToken aw ' ' rest = some (none, rest) := by
  rfl

theorem takeToken_star (aw : Bool) (rest : List Char) :
    takeToken aw '*' rest = some (some (.symbol "*"), rest) := by
  rfl

theorem takeNumber_period {rest : List Char} (h : ∀ c ∈ rest.head?, isDigit c = false) :
    takeNumber ('.' :: rest) = (some (.symbol "."), rest) := by
  obtain ⟨htake, hdrop⟩ := takeWhile_of_head h
  have hwhole : ('.' :: rest).takeWhile isDigit = [] := rfl
  have hpoint : ('.' :: rest).dropWhile isDigit = '.' :: rest := rfl
  simp only [takeNumber, hwhole, hpoint, htake, hdrop]
  rfl

theorem takeToken_period {rest : List Char} (h : ∀ c ∈ rest.head?, isDigit c = false) :
    takeToken true '.' rest = some (some (.symbol "."), rest) := by
  have hstart : startsWord '.' = false := by decide
  by_cases hunderscore : rest.head? = some '_'
  · simp [takeToken, hstart, hunderscore]
  · simp [takeToken, hstart, hunderscore, takeNumber_period h]

/-! ### Texts in tokens -/

/-- The characters are cut into the tokens; `aw` tells whether a word ends right before them. -/
def Scans (aw : Bool) (cs : List Char) (ts : List Token) : Prop :=
  ∀ fuel, cs.length ≤ fuel → scanSteps fuel aw cs = some ts

theorem Scans.nil (aw : Bool) : Scans aw [] [] := by
  intro fuel _
  cases fuel <;> rfl

theorem Scans.step {aw : Bool} {c : Char} {rest : List Char} {taken : Taken} {ts : List Token}
    (h : takeToken aw c rest = some taken) (hlen : taken.2.length ≤ rest.length)
    (hs : Scans taken.isWord taken.2 ts) : Scans aw (c :: rest) (taken.1.toList ++ ts) := by
  intro fuel hfuel
  cases fuel with
  | zero => exact absurd hfuel (Nat.not_succ_le_zero _)
  | succ fuel =>
    rw [scanSteps, h]
    simp only [hs fuel (hlen.trans (Nat.le_of_succ_le_succ hfuel)), Option.map_some]

/-- A part of a name is one token, if the name ends with it or goes on with a period. -/
theorem scans_part {aw : Bool} {i : Ident} {more : List Char} {ts : List Token} (hi : i.Writable)
    (hmore : EndsName more) (h : Scans true more ts) :
    Scans aw (i.written.toList ++ more) (.word i :: ts) := by
  obtain ⟨value, quote⟩ := i
  cases quote with
  | none =>
    obtain ⟨c, rest, hvalue, -⟩ := exists_cons_of_isWord hi
    have hword : IsWord (c :: rest) := hvalue ▸ hi
    have htake : takeToken aw c (rest ++ more) = _ := takeToken_word hword hmore
    rw [← hvalue, String.ofList_toList] at htake
    have hwritten : (Ident.mk value none).written.toList = c :: rest := hvalue
    rw [hwritten]
    exact .step htake (by simp) h
  | some q =>
    have htake : takeToken aw q (doubled q value.toList ++ q :: more) = _ :=
      takeToken_quoted hi hmore value.toList
    rw [String.ofList_toList] at htake
    have hwritten : (Ident.mk value (some q)).written.toList ++ more =
        q :: (doubled q value.toList ++ q :: more) := by
      simp [Ident.written]
    rw [hwritten]
    refine .step htake ?_ h
    simp only [List.length_append, List.length_cons]
    omega

theorem scans_blank {aw : Bool} {more : List Char} {ts : List Token} (h : Scans false more ts) :
    Scans aw (' ' :: more) ts :=
  .step (takeToken_blank aw more) le_rfl h

theorem scans_star {aw : Bool} {more : List Char} {ts : List Token} (h : Scans false more ts) :
    Scans aw ('*' :: more) (.symbol "*" :: ts) :=
  .step (takeToken_star aw more) le_rfl h

theorem scans_period {more : List Char} {ts : List Token}
    (hmore : ∀ c ∈ more.head?, isDigit c = false) (h : Scans false more ts) :
    Scans true ('.' :: more) (.symbol "." :: ts) :=
  .step (takeToken_period hmore) le_rfl h

def partTokens : List Ident → List Token
  | [] => []
  | [i] => [.word i]
  | i :: rest => .word i :: .symbol "." :: partTokens rest

theorem scans_parts {more : List Char} {ts : List Token} (hmore : EndsName more)
    (h : Scans true more ts) : ∀ {ids : List Ident} (aw : Bool), ids ≠ [] →
      (∀ i ∈ ids, i.Writable) →
      Scans aw ((Text.joined "." (ids.map (·.written))).toList ++ more) (partTokens ids ++ ts)
  | [], _, hne, _ => absurd rfl hne
  | [i], aw, _, hids => scans_part (hids i (List.mem_cons_self ..)) hmore h
  | i :: j :: rest, aw, _, hids => by
    obtain ⟨hi, hrest⟩ := List.forall_mem_cons.mp hids
    have hnext := scans_parts hmore h false (List.cons_ne_nil j rest) hrest
    obtain ⟨c, cs, hj, hdigit, -⟩ := head_written (hrest j (List.mem_cons_self ..))
    have hhead : ∀ d ∈ ((Text.joined "." ((j :: rest).map (·.written))).toList ++ more).head?,
        isDigit d = false := by
      obtain ⟨t, ht⟩ := exists_joined_cons "." j.written (rest.map (·.written))
      rw [List.map_cons, ht, String.toList_append, hj]
      rintro d ⟨⟩
      exact hdigit
    have hpart : Scans aw _ _ := scans_part hi (endsName_period _) (scans_period hhead hnext)
    simpa [Text.joined, partTokens, List.append_assoc] using hpart

/-! ### Sentences -/

theorem scan_of_scans {s : String} {ts : List Token} (h : Scans false s.toList ts) :
    scan s = some ts :=
  h _ le_rfl

theorem scans_word {aw : Bool} {more : List Char} {ts : List Token} (word : String)
    (hword : IsWord word.toList) (h : Scans false more ts) :
    Scans aw (word.toList ++ ' ' :: more) (.word { value := word } :: ts) :=
  scans_part (i := { value := word }) hword (endsName_blank more) (scans_blank h)

variable (n : WrittenName)

theorem scans_from : Scans false ("FROM " ++ n.text).toList
    (.word { value := "FROM" } :: partTokens n.parts) := by
  have hname := scans_parts endsName_nil (.nil true) false n.ne_nil n.writable
  rw [List.append_nil, List.append_nil] at hname
  rw [String.toList_append]
  exact scans_word "FROM" (by decide) hname

theorem scan_star : scan ("SELECT * FROM " ++ n.text) =
    some (.word { value := "SELECT" } :: .symbol "*" :: .word { value := "FROM" } ::
      partTokens n.parts) := by
  have htext : ("SELECT * FROM " ++ n.text).toList =
      "SELECT".toList ++ ' ' :: '*' :: ' ' :: ("FROM " ++ n.text).toList := by
    simp
  refine scan_of_scans ?_
  rw [htext]
  exact scans_word "SELECT" (by decide) (scans_star (scans_blank (scans_from n)))

theorem scan_tableStar : scan ("SELECT " ++ n.text ++ ".* FROM " ++ n.text) =
    some (.word { value := "SELECT" } :: (partTokens n.parts ++
      .symbol "." :: .symbol "*" :: .word { value := "FROM" } :: partTokens n.parts)) := by
  have htext : ("SELECT " ++ n.text ++ ".* FROM " ++ n.text).toList =
      "SELECT".toList ++ ' ' :: (n.text.toList ++ '.' :: '*' :: ' ' ::
        ("FROM " ++ n.text).toList) := by
    simp
  have hperiod : Scans true ('.' :: '*' :: ' ' :: ("FROM " ++ n.text).toList) _ :=
    scans_period (by rintro c ⟨⟩; decide) (scans_star (scans_blank (scans_from n)))
  refine scan_of_scans ?_
  rw [htext]
  exact scans_word "SELECT" (by decide)
    (scans_parts (endsName_period _) hperiod false n.ne_nil n.writable)

end FlatQuery.Sql
