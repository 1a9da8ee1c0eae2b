import FlatQuery.Json.Read
import FlatQuery.Proofs.Text.Integer
import Mathlib.Data.List.TakeDrop
import Mathlib.Data.List.TakeWhile

/-!
# Documents read back

The indented text of a document reads back as that document (`parse?_pretty`).  The document must
hold no number that is kept as a text, since such a text need not be one that the grammar allows.

Each reader is shown to take exactly what the writer has put, whatever follows: escapes and strings
(`stringBody?_quoted`), integers (`number?_toString`), and then values, items and fields together,
by recursion on the document.
-/

namespace FlatQuery.Json

/-! ### Strings -/

theorem hexValue?_hexDigit : ∀ n < 16, hexValue? (hexDigit n) = some n := by
  decide

theorem unicodeEscape?_control {c : Char} (hc : c.toNat < 0x20) (rest : List Char) :
    unicodeEscape? ('0' :: '0' :: hexDigit (c.toNat / 16) :: hexDigit (c.toNat % 16) :: rest) =
      some (some c, rest) := by
  have hzero : hexValue? '0' = some 0 := rfl
  have hhigh := hexValue?_hexDigit (c.toNat / 16) (by omega)
  have hlow := hexValue?_hexDigit (c.toNat % 16) (by omega)
  have hvalue : ((0 * 16 + 0) * 16 + c.toNat / 16) * 16 + c.toNat % 16 = c.toNat := by omega
  have hfour : hex4? ('0' :: '0' :: hexDigit (c.toNat / 16) :: hexDigit (c.toNat % 16) :: rest) =
      some (c.toNat, rest) := by
    simp only [hex4?, hzero, hhigh, hlow, Option.bind_eq_bind, Option.bind_some, hvalue]
  have hlowSurrogate : ¬ (0xDC00 ≤ c.toNat ∧ c.toNat ≤ 0xDFFF) := by omega
  have hhighSurrogate : ¬ (0xD800 ≤ c.toNat ∧ c.toNat ≤ 0xDBFF) := by omega
  simp only [unicodeEscape?, hfour, Option.bind_eq_bind, Option.bind_some, Bool.and_eq_true,
    decide_eq_true_eq, hlowSurrogate, hhighSurrogate, if_false, Char.ofNat_toNat]

/-- A character stands for itself, or is written as an escape that reads back as the character. -/
theorem escapeChar_cases (c : Char) :
    (escapeChar c = [c] ∧ c ≠ '"' ∧ c ≠ '\\' ∧ ¬ c.toNat < 0x20) ∨
      ∃ e, escapeChar c = '\\' :: e ∧ ∀ rest, escape? (e ++ rest) = some (some c, rest) := by
  unfold escapeChar
  by_cases hquote : c = '"'
  · exact .inr ⟨['"'], by simp [hquote], fun rest => by simp [escape?, hquote]⟩
  by_cases hbackslash : c = '\\'
  · exact .inr ⟨['\\'], by simp [hbackslash], fun rest => by simp [escape?, hbackslash]⟩
  by_cases hb : c = '\x08'
  · exact .inr ⟨['b'], by simp [hb], fun rest => by simp [escape?, hb]⟩
  by_cases hf : c = '\x0c'
  · exact .inr ⟨['f'], by simp [hf], fun rest => by simp [escape?, hf]⟩
  by_cases hn : c = '\n'
  · exact .inr ⟨['n'], by simp [hn], fun rest => by simp [escape?, hn]⟩
  by_cases hr : c = '\r'
  · exact .inr ⟨['r'], by simp [hr], fun rest => by simp [escape?, hr]⟩
  by_cases ht : c = '\t'
  · exact .inr ⟨['t'], by simp [ht], fun rest => by simp [escape?, ht]⟩
  rw [if_neg hquote, if_neg hbackslash, if_neg hb, if_neg hf, if_neg hn, if_neg hr, if_neg ht]
  by_cases hcontrol : c.toNat < 0x20
  · refine .inr ⟨_, if_pos hcontrol, fun rest => ?_⟩
    exact unicodeEscape?_control hcontrol rest
  · exact .inl ⟨if_neg hcontrol, hquote, hbackslash, hcontrol⟩

theorem length_escapeChar_pos (c : Char) : 0 < (escapeChar c).length := by
  rcases escapeChar_cases c with ⟨h, -⟩ | ⟨e, h, -⟩
  · rw [h]
    exact Nat.one_pos
  · rw [h, List.length_cons]
    omega

theorem length_le_flatMap_escapeChar (cs : List Char) :
    cs.length ≤ (cs.flatMap escapeChar).length := by
  induction cs with
  | nil => exact Nat.le_refl _
  | cons c cs ih =>
    have hc := length_escapeChar_pos c
    rw [List.flatMap_cons, List.length_append, List.length_cons]
    omega

theorem stringBody?_escapeChar (c : Char) (fuel : Nat) (rest : List Char) :
    stringBody? (fuel + 1) (escapeChar c ++ rest) =
      (stringBody? fuel rest).map fun p => (p.1.map (c :: ·), p.2) := by
  rcases escapeChar_cases c with ⟨h, hquote, hbackslash, hcontrol⟩ | ⟨e, h, hescape⟩
  · rw [h, List.singleton_append, stringBody?, if_neg hquote, if_neg hbackslash, if_neg hcontrol]
    cases stringBody? fuel rest <;> rfl
  · rw [h, List.cons_append, stringBody?, if_neg (by decide), if_pos rfl, hescape]
    simp only [Option.bind_eq_bind, Option.bind_some]
    cases stringBody? fuel rest <;> rfl

theorem stringBody?_quoted {fuel : Nat} {cs : List Char} (h : cs.length < fuel)
    (rest : List Char) :
    stringBody? fuel (cs.flatMap escapeChar ++ '"' :: rest) = some (some cs, rest) := by
  induction cs generalizing fuel with
  | nil =>
    obtain ⟨fuel, rfl⟩ := Nat.exists_eq_succ_of_ne_zero (Nat.ne_of_gt h)
    rfl
  | cons c cs ih =>
    obtain ⟨fuel, rfl⟩ := Nat.exists_eq_succ_of_ne_zero (Nat.ne_of_gt (Nat.zero_lt_of_lt h))
    have hcs : cs.length < fuel := Nat.lt_of_succ_lt_succ h
    rw [List.flatMap_cons, List.append_assoc, stringBody?_escapeChar, ih hcs, Option.map_some,
      Option.map_some]

/-! ### Integers -/

/-- What follows a value in a document: nothing, a comma or a new line. -/
def Ends (rest : List Char) : Prop :=
  ∀ c ∈ rest.head?, c = ',' ∨ c = '\n'

theorem digitsValue_toDigits (n : Nat) : digitsValue (Nat.toDigits 10 n) = n :=
  Nat.ofDigitChars_ten_toDigits

theorem toDigits_of_ne_zero {n : Nat} (hn : n ≠ 0) :
    ∃ d ds, Nat.toDigits 10 n = d :: ds ∧ d ≠ '0' := by
  induction n using Nat.strongRecOn with
  | ind n ih =>
    by_cases hlt : n < 10
    · refine ⟨n.digitChar, [], Nat.toDigits_of_lt_base hlt, ?_⟩
      exact fun h => hn (Nat.digitChar_eq_zero.mp h)
    · obtain ⟨d, ds, h, hd⟩ := ih (n / 10) (by omega) (by omega)
      refine ⟨d, ds ++ [(n % 10).digitChar], ?_, hd⟩
      rw [Nat.toDigits_of_base_le (by decide) (by omega), h, List.cons_append]

theorem Ends.not_isDigit {c : Char} {rest : List Char} (h : Ends (c :: rest)) :
    isDigit c = false := by
  rcases h c rfl with rfl | rfl <;> rfl

theorem digits?_append {ds rest : List Char} (hne : ds ≠ []) (hds : ∀ d ∈ ds, isDigit d = true)
    (hrest : Ends rest) : digits? (ds ++ rest) = some (ds, rest) := by
  have hspan : (ds ++ rest).span isDigit = (ds, rest) := by
    rw [List.span_eq_takeWhile_dropWhile, List.takeWhile_append_of_pos hds,
      List.dropWhile_append_of_pos hds]
    cases rest with
    | nil => simp
    | cons c rest => simp [hrest.not_isDigit]
  cases ds with
  | nil => exact absurd rfl hne
  | cons d ds => simp only [digits?, hspan]

theorem whole?_toDigits (n : Nat) {rest : List Char} (hrest : Ends rest) :
    whole? (Nat.toDigits 10 n ++ rest) = some (Nat.toDigits 10 n, rest) := by
  by_cases hn : n = 0
  · subst hn
    cases rest with
    | nil => rfl
    | cons c rest => simp [Nat.toDigits_zero, whole?, hrest.not_isDigit]
  · have hds : ∀ d ∈ Nat.toDigits 10 n, isDigit d = true := fun d hd =>
      Nat.isDigit_of_mem_toDigits (by decide) (by decide) hd
    have hdigits := digits?_append Nat.toDigits_ne_nil hds hrest
    obtain ⟨d, ds, h, hd⟩ := toDigits_of_ne_zero hn
    rw [h, List.cons_append] at hdigits ⊢
    rw [whole?, hdigits]
    rintro _ ⟨⟩
    exact hd rfl

theorem fraction?_of_ends {rest : List Char} (hrest : Ends rest) :
    fraction? rest = some ([], rest) := by
  rw [fraction?]
  rintro tail rfl
  exact absurd (hrest _ rfl) (by decide)

theorem exponent?_of_ends {rest : List Char} (hrest : Ends rest) :
    exponent? rest = some ([], rest) := by
  cases rest with
  | nil => rfl
  | cons c rest =>
    rcases hrest c rfl with rfl | rfl <;> rfl

/-- The text of an integer starts with a minus sign or a digit. -/
theorem exists_toString (n : Int) :
    ∃ c cs, (toString n).toList = c :: cs ∧ (c = '-' ∨ isDigit c = true) := by
  rw [Integer.toList_toString]
  by_cases hn : 0 ≤ n
  · rw [if_pos hn]
    obtain ⟨c, cs, h⟩ := List.exists_cons_of_ne_nil (Nat.toDigits_ne_nil (b := 10) (n := n.toNat))
    refine ⟨c, cs, h, .inr (Nat.isDigit_of_mem_toDigits (b := 10) (n := n.toNat) ?_ ?_ ?_)⟩
    · decide
    · decide
    · exact h ▸ List.mem_cons_self ..
  · rw [if_neg hn]
    exact ⟨'-', _, rfl, .inl rfl⟩

theorem number?_toString (n : Int) {rest : List Char} (hrest : Ends rest) :
    number? ((toString n).toList ++ rest) = some (integer n, rest) := by
  have hread := fun m => whole?_toDigits m hrest
  rw [Integer.toList_toString]
  by_cases hn : 0 ≤ n
  · have hsign : (Nat.toDigits 10 n.toNat ++ rest).head? ≠ some '-' := by
      obtain ⟨c, cs, h⟩ :=
        List.exists_cons_of_ne_nil (Nat.toDigits_ne_nil (b := 10) (n := n.toNat))
      have hc : isDigit c = true := Nat.isDigit_of_mem_toDigits (b := 10) (n := n.toNat)
        (by decide) (by decide) (h ▸ List.mem_cons_self ..)
      rw [h, List.cons_append, List.head?_cons]
      rintro ⟨⟩
      exact absurd hc (by decide)
    have hvalue : ((n.toNat : Nat) : Int) = n := Int.toNat_of_nonneg hn
    rw [if_pos hn]
    simp only [number?, hsign, decide_false, if_false, hread,
      fraction?_of_ends hrest, exponent?_of_ends hrest, Option.bind_eq_bind, Option.bind_some,
      digitsValue_toDigits, hvalue]
    rfl
  · have hzero : (Nat.toDigits 10 (-n).toNat == ['0']) = false := by
      obtain ⟨d, ds, h, hd⟩ := toDigits_of_ne_zero (n := (-n).toNat) (by omega)
      rw [h]
      exact beq_false_of_ne fun heq => hd (List.head_eq_of_cons_eq heq)
    have hvalue : (((-n).toNat : Nat) : Int) = -n := Int.toNat_of_nonneg (by omega)
    rw [if_neg hn]
    simp only [number?, List.cons_append, List.head?_cons, List.tail_cons, decide_true, if_true,
      hread, fraction?_of_ends hrest, exponent?_of_ends hrest, Option.bind_eq_bind,
      Option.bind_some, digitsValue_toDigits, hvalue, hzero, List.isEmpty_nil, Bool.and_self,
      Bool.not_false, Bool.and_false, Int.neg_neg]

/-! ### Values -/

mutual

/-- Whether a document holds no number that is kept as a text. -/
def IsPlain : Json → Prop
  | decimal _ => False
  | array items => ArePlain items
  | object fields => HavePlain fields
  | _ => True

def ArePlain : List Json → Prop
  | [] => True
  | v :: rest => IsPlain v ∧ ArePlain rest

def HavePlain : List (String × Json) → Prop
  | [] => True
  | (_, v) :: rest => IsPlain v ∧ HavePlain rest

end

theorem skipSpace_newline (depth : Nat) (cs : List Char) :
    skipSpace (newline depth ++ cs) = skipSpace cs := by
  refine List.dropWhile_append_of_pos ?_
  intro c hc
  rcases List.mem_cons.mp hc with rfl | hc
  · rfl
  · rw [List.eq_of_mem_replicate hc]
    rfl

theorem skipSpace_cons {c : Char} (h : isSpace c = false) (cs : List Char) :
    skipSpace (c :: cs) = c :: cs :=
  List.dropWhile_cons_of_neg (by simp [h])

theorem isSpace_of_isDigit {c : Char} (h : isDigit c = true) : isSpace c = false := by
  refine Bool.eq_false_iff.mpr fun hs => ?_
  simp only [isSpace, Bool.or_eq_true, decide_eq_true_eq] at hs
  rcases hs with ((rfl | rfl) | rfl) | rfl <;> exact absurd h (by decide)

theorem value?_newline (fuel depth : Nat) (cs : List Char) :
    value? fuel (newline depth ++ cs) = value? fuel cs := by
  cases fuel with
  | zero => rfl
  | succ fuel => rw [value?, value?, skipSpace_newline]

theorem exists_prettyChars {v : Json} (hv : v.IsPlain) (depth : Nat) :
    ∃ c cs, v.prettyChars depth = c :: cs ∧ isSpace c = false ∧ c ≠ ']' := by
  cases v with
  | null => exact ⟨'n', _, by rw [prettyChars]; rfl, rfl, by decide⟩
  | bool b =>
    cases b with
    | true => exact ⟨'t', _, by rw [prettyChars]; rfl, rfl, by decide⟩
    | false => exact ⟨'f', _, by rw [prettyChars]; rfl, rfl, by decide⟩
  | integer n =>
    obtain ⟨c, cs, h, hc⟩ := exists_toString n
    refine ⟨c, cs, by rw [prettyChars, h], ?_, ?_⟩
    · rcases hc with rfl | hc
      · rfl
      · exact isSpace_of_isDigit hc
    · rintro rfl
      rcases hc with hc | hc <;> exact absurd hc (by decide)
  | decimal text => exact hv.elim
  | string s => exact ⟨'"', _, by rw [prettyChars, quote]; rfl, rfl, by decide⟩
  | array items =>
    cases items with
    | nil => exact ⟨'[', _, by rw [prettyChars], rfl, by decide⟩
    | cons v rest => exact ⟨'[', _, by rw [prettyChars]; rfl, rfl, by decide⟩
  | object fields =>
    cases fields with
    | nil => exact ⟨'{', _, by rw [prettyChars], rfl, by decide⟩
    | cons p rest => exact ⟨'{', _, by rw [prettyChars]; rfl, rfl, by decide⟩

theorem ends_comma (cs : List Char) : Ends (',' :: cs) := by
  rintro c ⟨⟩
  exact .inl rfl

theorem ends_newline (depth : Nat) (cs : List Char) : Ends (newline depth ++ cs) := by
  rintro c ⟨⟩
  exact .inr rfl

theorem length_newline (depth : Nat) : (newline depth).length = 2 * depth + 1 := by
  rw [newline, List.length_cons, List.length_replicate]

theorem skipSpace_quote (s : String) (rest : List Char) :
    skipSpace (quote s ++ rest) = '"' :: (s.toList.flatMap escapeChar ++ '"' :: rest) := by
  have hquote : quote s ++ rest = '"' :: (s.toList.flatMap escapeChar ++ '"' :: rest) := by
    rw [quote, List.cons_append, List.cons_append, List.append_assoc]
    rfl
  rw [hquote, skipSpace_cons rfl]

theorem stringBody?_quote (s : String) (rest : List Char) :
    stringBody? ((s.toList.flatMap escapeChar ++ '"' :: rest).length + 1)
      (s.toList.flatMap escapeChar ++ '"' :: rest) = some (some s.toList, rest) := by
  refine stringBody?_quoted ?_ rest
  have := length_le_flatMap_escapeChar s.toList
  rw [List.length_append]
  omega

theorem value?_quote (fuel : Nat) (s : String) (rest : List Char) :
    value? (fuel + 1) (quote s ++ rest) = some (string s, rest) := by
  rw [value?, skipSpace_quote]
  simp only [if_true, stringBody?_quote, Option.bind_eq_bind, Option.bind_some, Option.map_some,
    Option.getD_some, Function.comp_apply, String.ofList_toList]

theorem value?_number {fuel : Nat} {c : Char} {cs : List Char} (hc : c = '-' ∨ isDigit c = true) :
    value? (fuel + 1) (c :: cs) = number? (c :: cs) := by
  have hne : ∀ d, isDigit d = false → d ≠ '-' → c ≠ d := by
    rintro d hd hminus rfl
    rcases hc with hc | hc
    · exact hminus hc
    · exact absurd hc (by simp [hd])
  have hspace : isSpace c = false := by
    rcases hc with rfl | hc
    · rfl
    · exact isSpace_of_isDigit hc
  rw [value?, skipSpace_cons hspace]
  simp only [if_neg (hne '"' rfl (by decide)), if_neg (hne '[' rfl (by decide)),
    if_neg (hne '{' rfl (by decide)), if_neg (hne 'n' rfl (by decide)),
    if_neg (hne 't' rfl (by decide)), if_neg (hne 'f' rfl (by decide))]

theorem value?_bracket {fuel : Nat} {c : Char} {cs cs' : List Char}
    (h : skipSpace cs = c :: cs') (hc : c ≠ ']') :
    value? (fuel + 1) ('[' :: cs) = (items? fuel (c :: cs')).map fun p => (array p.1, p.2) := by
  rw [value?, skipSpace_cons rfl]
  simp only [h, if_true, if_neg (show ¬ '[' = '"' by decide)]
  split
  case h_1 heq => exact absurd (List.head_eq_of_cons_eq heq) hc
  case h_2 => cases items? fuel (c :: cs') <;> rfl

theorem value?_brace {fuel : Nat} {c : Char} {cs cs' : List Char}
    (h : skipSpace cs = c :: cs') (hc : c ≠ '}') :
    value? (fuel + 1) ('{' :: cs) =
      (fields? fuel (c :: cs')).map fun p => ((p.1.map object).getD undecoded, p.2) := by
  rw [value?, skipSpace_cons rfl]
  simp only [h, if_true, if_neg (show ¬ '{' = '"' by decide), if_neg (show ¬ '{' = '[' by decide)]
  split
  case h_1 heq => exact absurd (List.head_eq_of_cons_eq heq) hc
  case h_2 => cases fields? fuel (c :: cs') <;> rfl

theorem value?_blank (fuel : Nat) (cs : List Char) : value? fuel (' ' :: cs) = value? fuel cs := by
  cases fuel with
  | zero => rfl
  | succ fuel =>
    have hskip : skipSpace (' ' :: cs) = skipSpace cs := List.dropWhile_cons_of_pos rfl
    rw [value?, value?, hskip]

theorem items?_newline (fuel depth : Nat) (cs : List Char) :
    items? fuel (newline depth ++ cs) = items? fuel cs := by
  cases fuel with
  | zero => rfl
  | succ fuel => rw [items?, items?, value?_newline]

theorem fields?_newline (fuel depth : Nat) (cs : List Char) :
    fields? fuel (newline depth ++ cs) = fields? fuel cs := by
  cases fuel with
  | zero => rfl
  | succ fuel => rw [fields?, fields?, skipSpace_newline]

/-- The last field: its name, a colon and its value, and then the brace. -/
theorem fields?_brace {fuel : Nat} {k : String} {v : Json} {cs rest rest' : List Char}
    (h : value? fuel cs = some (v, rest)) (hrest : skipSpace rest = '}' :: rest') :
    fields? (fuel + 1) (quote k ++ ':' :: cs) = some (some [(k, v)], rest') := by
  rw [fields?, skipSpace_quote]
  simp only [stringBody?_quote, Option.bind_eq_bind, Option.bind_some, Option.map_some,
    skipSpace_cons (c := ':') rfl, h, hrest, String.ofList_toList]

/-- A field before others: its name, a colon and its value, and then a comma. -/
theorem fields?_comma {fuel : Nat} {k : String} {v : Json} {cs rest rest' rest'' : List Char}
    {more : List (String × Json)} (h : value? fuel cs = some (v, rest))
    (hrest : skipSpace rest = ',' :: rest')
    (hmore : fields? fuel rest' = some (some more, rest'')) :
    fields? (fuel + 1) (quote k ++ ':' :: cs) = some (some ((k, v) :: more), rest'') := by
  rw [fields?, skipSpace_quote]
  simp only [stringBody?_quote, Option.bind_eq_bind, Option.bind_some, Option.map_some,
    skipSpace_cons (c := ':') rfl, h, hrest, hmore, String.ofList_toList]

mutual

/-- A value is read up to its end, with fuel for more characters than it has. -/
theorem value?_prettyChars : ∀ (v : Json) (fuel depth : Nat) (rest : List Char),
    v.IsPlain → Ends rest → (v.prettyChars depth).length < fuel →
      value? fuel (v.prettyChars depth ++ rest) = some (v, rest)
  | _, 0, _, _, _, _, h => absurd h (Nat.not_lt_zero _)
  | null, fuel + 1, _, _, _, _, _ => by
    rw [prettyChars]
    rfl
  | bool true, fuel + 1, _, _, _, _, _ => by
    rw [prettyChars]
    rfl
  | bool false, fuel + 1, _, _, _, _, _ => by
    rw [prettyChars]
    rfl
  | integer n, fuel + 1, _, rest, _, hrest, _ => by
    obtain ⟨c, cs, htext, hc⟩ := exists_toString n
    have hnumber := number?_toString n hrest
    rw [htext] at hnumber
    rw [prettyChars, htext, List.cons_append, value?_number hc]
    exact hnumber
  | string s, fuel + 1, _, rest, _, _, _ => by
    rw [prettyChars]
    exact value?_quote fuel s rest
  | array [], fuel + 1, _, _, _, _, _ => by
    rw [prettyChars]
    rfl
  | object [], fuel + 1, _, _, _, _, _ => by
    rw [prettyChars]
    rfl
  | array (v :: vs), fuel + 1, depth, rest, hv, hrest, h => by
    obtain ⟨hv, hvs⟩ := hv
    rw [prettyChars] at h ⊢
    simp only [List.length_append, List.length_cons, length_newline, List.length_nil] at h
    obtain ⟨fuel, rfl⟩ : ∃ f, fuel = f + 1 := ⟨fuel - 1, by omega⟩
    have hitems := items?_prettyItems vs fuel (depth + 1) v _ rest hvs (by omega)
      (fun r hr => value?_prettyChars v fuel (depth + 1) r hv hr (by omega)) depth
    -- the first item starts with a character that neither ends the array nor is blank
    obtain ⟨c, cs, hc, hspace, hne⟩ := exists_prettyChars hv (depth + 1)
    rw [hc, List.cons_append] at hitems
    simp only [hc, List.append_assoc, List.cons_append, List.nil_append]
    rw [value?_bracket _ hne, hitems, Option.map_some]
    rw [skipSpace_newline, skipSpace_cons hspace]
  | object ((k, v) :: fields), fuel + 1, depth, rest, hv, hrest, h => by
    obtain ⟨hv, hfields⟩ := hv
    rw [prettyChars] at h ⊢
    simp only [List.length_append, List.length_cons, length_newline, List.length_nil] at h
    obtain ⟨fuel, rfl⟩ : ∃ f, fuel = f + 1 := ⟨fuel - 1, by omega⟩
    have hread : ∀ r, Ends r →
        value? fuel (' ' :: prettyChars (depth + 1) v ++ r) = some (v, r) := by
      intro r hr
      rw [List.cons_append, value?_blank]
      exact value?_prettyChars v fuel (depth + 1) r hv hr (by omega)
    have hfields := fields?_prettyFields fields fuel (depth + 1) k v _ rest hfields (by omega)
      hread depth
    simp only [List.append_assoc, List.cons_append, List.nil_append] at hfields ⊢
    have hquote : ∀ cs, quote k ++ cs = '"' :: (k.toList.flatMap escapeChar ++ ['"'] ++ cs) := by
      intro cs
      rw [quote, List.cons_append, List.cons_append]
    rw [value?_brace (by rw [skipSpace_newline, hquote, skipSpace_cons rfl]) (by decide), ← hquote,
      hfields, Option.map_some, Option.map_some, Option.getD_some]

/-- Items are read up to the closing bracket, given that the first one is read up to its end. -/
theorem items?_prettyItems : ∀ (vs : List Json) (fuel depth : Nat) (v : Json)
    (cs rest : List Char), ArePlain vs → (prettyItems depth vs).length ≤ fuel →
      (∀ r, Ends r → value? fuel (cs ++ r) = some (v, r)) →
        ∀ d, items? (fuel + 1) (cs ++ (prettyItems depth vs ++ (newline d ++ ']' :: rest))) =
          some (v :: vs, rest)
  | [], fuel, depth, v, cs, rest, _, _, hread, d => by
    rw [prettyItems, List.nil_append, items?, hread _ (ends_newline d _)]
    simp only [Option.bind_eq_bind, Option.bind_some, skipSpace_newline,
      skipSpace_cons (c := ']') rfl]
  | w :: vs, fuel, depth, v, cs, rest, hvs, h, hread, d => by
    obtain ⟨hw, hvs⟩ := hvs
    rw [prettyItems] at h ⊢
    simp only [List.length_append, List.length_cons, length_newline] at h
    obtain ⟨fuel, rfl⟩ : ∃ f, fuel = f + 1 := ⟨fuel - 1, by omega⟩
    have hitems := items?_prettyItems vs fuel depth w _ rest hvs (by omega)
      (fun r hr => value?_prettyChars w fuel depth r hw hr (by omega)) d
    rw [List.append_assoc, List.append_assoc, List.cons_append, items?, hread _ (ends_comma _)]
    simp only [Option.bind_eq_bind, Option.bind_some, skipSpace_cons (c := ',') rfl, items?_newline,
      hitems]

/-- Fields are read up to the closing brace, given that the first value is read up to its end. -/
theorem fields?_prettyFields : ∀ (fields : List (String × Json)) (fuel depth : Nat)
    (k : String) (v : Json) (cs rest : List Char),
      HavePlain fields → (prettyFields depth fields).length ≤ fuel →
        (∀ r, Ends r → value? fuel (cs ++ r) = some (v, r)) →
          ∀ d, fields? (fuel + 1)
              (quote k ++ ':' :: (cs ++ (prettyFields depth fields ++ (newline d ++ '}' :: rest)))) =
            some (some ((k, v) :: fields), rest)
  | [], fuel, depth, k, v, cs, rest, _, _, hread, d => by
    rw [prettyFields, List.nil_append]
    refine fields?_brace (hread _ (ends_newline d _)) ?_
    rw [skipSpace_newline, skipSpace_cons (c := '}') rfl]
  | (l, w) :: fields, fuel, depth, k, v, cs, rest, hfields, h, hread, d => by
    obtain ⟨hw, hfields⟩ := hfields
    rw [prettyFields] at h ⊢
    simp only [List.length_append, List.length_cons, length_newline] at h
    obtain ⟨fuel, rfl⟩ : ∃ f, fuel = f + 1 := ⟨fuel - 1, by omega⟩
    have hvalue : ∀ r, Ends r →
        value? fuel (' ' :: prettyChars depth w ++ r) = some (w, r) := by
      intro r hr
      rw [List.cons_append, value?_blank]
      exact value?_prettyChars w fuel depth r hw hr (by omega)
    have hmore := fields?_prettyFields fields fuel depth l w _ rest hfields (by omega) hvalue d
    simp only [List.append_assoc, List.cons_append] at hmore ⊢
    refine fields?_comma (hread _ (ends_comma _)) (skipSpace_cons (c := ',') rfl _) ?_
    rw [fields?_newline, hmore]

end

/-- **Documents read back.**  The indented text of a document reads back as the document. -/
theorem parse?_pretty {v : Json} (hv : v.IsPlain) : parse? v.pretty = some v := by
  have hread := value?_prettyChars v ((v.prettyChars 0).length + 1) 0 [] hv (fun _ h => nomatch h)
    (Nat.lt_succ_self _)
  rw [List.append_nil] at hread
  simp only [parse?, pretty, String.toList_ofList, hread, Option.bind_eq_bind, Option.bind_some]
  rfl

end FlatQuery.Json
