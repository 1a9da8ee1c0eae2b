import FlatQuery.Proofs.Text.Integer
import FlatQuery.Sql.Scan
import FlatQuery.Sql.Meaning

/-!
# Names as they are written

A part of a name is written as a plain word, or between quotes of one of two kinds, each quote
inside doubled; a schema stands before a name with a period between them.  Neither as it is written
nor as it is written out again has a name blank characters at either end
(`WrittenName.trimmed_text`, `WrittenName.trimmed_dotted`).
-/

namespace FlatQuery.Sql

open Integer (isDigit toNat_of_isDigit)

/-! ### Spelling -/

/-- Whether the characters are those of a plain word; the signs alone are none. -/
def IsWord (cs : List Char) : Prop :=
  cs.head?.any startsWord ∧ cs.all continuesWord ∧ cs ∉ [['#'], ['@'], ['@', '@']]

instance : DecidablePred IsWord := fun _ => inferInstanceAs (Decidable (_ ∧ _ ∧ _))

/-- The characters with each quote doubled. -/
def doubled (q : Char) (cs : List Char) : List Char :=
  cs.flatMap fun c => if c = q then [q, q] else [c]

/-- Whether a part can be written: as a plain word, or as any text between quotes. -/
def Ident.Writable (i : Ident) : Prop :=
  match i.quote with
  | none => IsWord i.value.toList
  | some q => q = '"' ∨ q = '`'

instance : DecidablePred Ident.Writable
  | { value, quote := none } => inferInstanceAs (Decidable (IsWord value.toList))
  | { value := _, quote := some q } => inferInstanceAs (Decidable (q = '"' ∨ q = '`'))

def Ident.written (i : Ident) : String :=
  match i.quote with
  | none => i.value
  | some q => String.ofList (q :: (doubled q i.value.toList ++ [q]))

/-- A name that can be written.  The last part is the name itself, and a schema stands before it. -/
structure WrittenName where
  parts : List Ident
  ne_nil : parts ≠ []
  writable : ∀ i ∈ parts, i.Writable

/-- The name as it is written, with periods between its parts. -/
def WrittenName.text (n : WrittenName) : String :=
  Text.joined "." (n.parts.map (·.written))

/-! ### Characters of words -/

theorem apart_letterRanges : (Text.letterRanges.all fun r => Text.blankRanges.all fun b =>
    r.2 < b.1 || b.2 < r.1) = true := by decide +kernel

theorem toNat_of_isAlpha {c : Char} (h : c.isAlpha = true) :
    65 ≤ c.toNat ∧ c.toNat ≤ 90 ∨ 97 ≤ c.toNat ∧ c.toNat ≤ 122 := by
  have hrange : (decide ('A'.val ≤ c.val ∧ c.val ≤ 'Z'.val) ||
      decide ('a'.val ≤ c.val) && decide (c.val ≤ 'z'.val)) = true := h
  simpa [UInt32.le_iff_toNat_le] using hrange

theorem isBlank_of_isLetter {c : Char} (h : Text.isLetter c = true) : Text.isBlank c = false := by
  rw [Text.isLetter] at h
  split at h
  · have hrange := toNat_of_isAlpha h
    exact Text.isBlank_of_ascii (by omega) (by omega)
  · refine Bool.eq_false_iff.mpr fun hblank => ?_
    obtain ⟨r, hr, hc⟩ := List.any_eq_true.mp h
    obtain ⟨b, hb, hc'⟩ := List.any_eq_true.mp hblank
    have hapart := List.all_eq_true.mp (List.all_eq_true.mp apart_letterRanges r hr) b hb
    simp only [Bool.and_eq_true, Bool.or_eq_true, decide_eq_true_eq] at hc hc' hapart
    omega

theorem isBlank_of_continuesWord {c : Char} (h : continuesWord c = true) :
    Text.isBlank c = false := by
  simp only [continuesWord, Bool.or_eq_true, decide_eq_true_eq] at h
  obtain ((((h | h) | rfl) | rfl) | rfl) | rfl := h
  · exact isBlank_of_isLetter h
  · have hrange := toNat_of_isDigit h
    exact Text.isBlank_of_ascii (by omega) (by omega)
  all_goals decide

theorem exists_cons_of_isWord {cs : List Char} (h : IsWord cs) :
    ∃ c rest, cs = c :: rest ∧ startsWord c = true := by
  cases cs with
  | nil => exact absurd h (by decide)
  | cons c rest => exact ⟨c, rest, rfl, h.1⟩

theorem isDigit_of_startsWord {c : Char} (h : startsWord c = true) : isDigit c = false := by
  refine Bool.eq_false_iff.mpr fun hdigit => ?_
  have hrange := toNat_of_isDigit hdigit
  simp only [startsWord, Bool.or_eq_true, decide_eq_true_eq] at h
  obtain ((h | rfl) | rfl) | rfl := h
  · rw [Text.isLetter, if_pos (by omega)] at h
    have halpha := toNat_of_isAlpha h
    omega
  all_goals exact absurd hdigit (by decide)

theorem ne_of_continuesWord {c d : Char} (hc : continuesWord c = true)
    (hd : continuesWord d = false) : c ≠ d := by
  rintro rfl
  exact absurd hc (by rw [hd]; decide)

/-! ### How a name starts -/

theorem head_written {i : Ident} (hi : i.Writable) :
    ∃ c rest, i.written.toList = c :: rest ∧ isDigit c = false ∧ Text.isBlank c = false := by
  obtain ⟨value, quote⟩ := i
  cases quote with
  | none =>
    obtain ⟨c, rest, hvalue, hc⟩ := exists_cons_of_isWord hi
    have hword : IsWord (c :: rest) := hvalue ▸ hi
    have hcontinues := List.all_eq_true.mp hword.2.1 c (List.mem_cons_self ..)
    exact ⟨c, rest, hvalue, isDigit_of_startsWord hc, isBlank_of_continuesWord hcontinues⟩
  | some q =>
    refine ⟨q, doubled q value.toList ++ [q], by simp [Ident.written], ?_⟩
    obtain rfl | rfl := hi <;> decide

theorem exists_joined_cons (sep s : String) (rest : List String) :
    ∃ t, Text.joined sep (s :: rest) = s ++ t := by
  cases rest with
  | nil => exact ⟨"", s.append_empty.symm⟩
  | cons t rest => exact ⟨sep ++ Text.joined sep (t :: rest), String.append_assoc ..⟩

theorem WrittenName.text_ne_nil (n : WrittenName) : n.text.toList ≠ [] := by
  obtain ⟨parts, hne, hparts⟩ := n
  obtain ⟨i, rest, rfl⟩ := List.exists_cons_of_ne_nil hne
  obtain ⟨c, cs, hi, -⟩ := head_written (hparts i (List.mem_cons_self ..))
  obtain ⟨t, ht⟩ := exists_joined_cons "." i.written (rest.map (·.written))
  simp [WrittenName.text, ht, hi]

/-! ### Nothing to trim -/

theorem trimmed_append_cons {front back : List Char} {c : Char} (hfront : Text.Trimmed front)
    (hc : Text.isBlank c = false) (hback : Text.Trimmed back) :
    Text.Trimmed (front ++ c :: back) := by
  refine ⟨fun d hd => ?_, fun d hd => ?_⟩
  · cases front with
    | nil =>
      obtain rfl : c = d := Option.some.inj hd
      exact hc
    | cons e front => exact hfront.1 d hd
  · rw [List.getLast?_append_cons] at hd
    cases back with
    | nil =>
      obtain rfl : c = d := Option.some.inj hd
      exact hc
    | cons e back => exact hback.2 d (by simpa using hd)

theorem trimmed_joined : ∀ {texts : List String}, (∀ s ∈ texts, Text.Trimmed s.toList) →
    Text.Trimmed (Text.joined "." texts).toList
  | [], _ => ⟨nofun, nofun⟩
  | [s], h => h s (List.mem_cons_self ..)
  | s :: t :: rest, h => by
    obtain ⟨hs, hrest⟩ := List.forall_mem_cons.mp h
    have hjoined := trimmed_append_cons hs (c := '.') (by decide) (trimmed_joined hrest)
    simpa [Text.joined] using hjoined

theorem trimmed_of_isWord {cs : List Char} (h : IsWord cs) : Text.Trimmed cs := by
  have hall := List.all_eq_true.mp h.2.1
  exact ⟨fun c hc => isBlank_of_continuesWord (hall c (List.mem_of_mem_head? hc)),
    fun c hc => isBlank_of_continuesWord (hall c (List.mem_of_mem_getLast? hc))⟩

theorem trimmed_quoted {q : Char} (hq : q = '"' ∨ q = '`') (cs : List Char) :
    Text.Trimmed (q :: (cs ++ [q])) := by
  have hblank : Text.isBlank q = false := by
    obtain rfl | rfl := hq <;> decide
  refine ⟨fun c hc => ?_, fun c hc => ?_⟩
  · obtain rfl : q = c := Option.some.inj hc
    exact hblank
  · rw [← List.cons_append, List.getLast?_concat] at hc
    obtain rfl : q = c := Option.some.inj hc
    exact hblank

theorem trimmed_written {i : Ident} (hi : i.Writable) : Text.Trimmed i.written.toList := by
  obtain ⟨value, quote⟩ := i
  cases quote with
  | none => exact trimmed_of_isWord hi
  | some q =>
    rw [Ident.written, String.toList_ofList]
    exact trimmed_quoted hi _

theorem trimmed_text {i : Ident} (hi : i.Writable) : Text.Trimmed i.text.toList := by
  obtain ⟨value, quote⟩ := i
  cases quote with
  | none => exact trimmed_of_isWord hi
  | some q =>
    show Text.Trimmed (quoted q value).toList
    rw [quoted, String.toList_ofList]
    exact trimmed_quoted hi _

theorem trimmed_joined_map {f : Ident → String} (hf : ∀ i, i.Writable → Text.Trimmed (f i).toList)
    (n : WrittenName) : Text.Trimmed (Text.joined "." (n.parts.map f)).toList := by
  refine trimmed_joined fun s hs => ?_
  obtain ⟨i, hi, rfl⟩ := List.mem_map.mp hs
  exact hf i (n.writable i hi)

theorem WrittenName.trimmed_text (n : WrittenName) : Text.Trimmed n.text.toList :=
  trimmed_joined_map (fun _ => trimmed_written) n

theorem WrittenName.trimmed_dotted (n : WrittenName) : Text.Trimmed (dotted n.parts).toList :=
  trimmed_joined_map (fun _ => Sql.trimmed_text) n

/-! ### No star at the end -/

theorem last_joined_ne_star : ∀ {texts : List String},
    (∀ s ∈ texts, s.toList.getLast? ≠ some '*') → (Text.joined "." texts).toList.getLast? ≠ some '*'
  | [], _ => nofun
  | [s], h => h s (List.mem_cons_self ..)
  | s :: t :: rest, h => by
    have hrest := last_joined_ne_star (List.forall_mem_cons.mp h).2
    have htext : (Text.joined "." (s :: t :: rest)).toList =
        s.toList ++ '.' :: (Text.joined "." (t :: rest)).toList := by
      simp [Text.joined]
    rw [htext, List.getLast?_append_cons]
    cases hjoined : (Text.joined "." (t :: rest)).toList with
    | nil => decide
    | cons c cs =>
      rw [List.getLast?_cons_cons, ← hjoined]
      exact hrest

theorem last_text_ne_star {i : Ident} (hi : i.Writable) : i.text.toList.getLast? ≠ some '*' := by
  obtain ⟨value, quote⟩ := i
  cases quote with
  | none =>
    intro hlast
    have hcontinues := List.all_eq_true.mp hi.2.1 '*' (List.mem_of_mem_getLast? hlast)
    exact absurd hcontinues (by decide)
  | some q =>
    show (quoted q value).toList.getLast? ≠ some '*'
    rw [quoted, String.toList_ofList, List.getLast?_concat]
    obtain rfl | rfl := hi <;> decide

/-- A name does not end in a star, so that no star is taken off its end. -/
theorem WrittenName.starTable_dotted (n : WrittenName) : starTable (dotted n.parts) = dotted n.parts := by
  have hlast : (dotted n.parts).toList.getLast? ≠ some '*' := by
    refine last_joined_ne_star fun s hs => ?_
    obtain ⟨i, hi, rfl⟩ := List.mem_map.mp hs
    exact last_text_ne_star (n.writable i hi)
  have hkept : starTable.withoutStars (dotted n.parts).toList.reverse =
      (dotted n.parts).toList.reverse := by
    rw [← List.head?_reverse] at hlast
    unfold starTable.withoutStars
    split
    · next h => exact absurd (by rw [h]; rfl) hlast
    · rfl
  have hstar : (dotted n.parts ++ ".*").toList.reverse =
      '*' :: '.' :: (dotted n.parts).toList.reverse := by
    simp
  rw [starTable, hstar, starTable.withoutStars, hkept, List.reverse_reverse, String.ofList_toList]

theorem trim_of_name (n : WrittenName) {s : String} {front : List Char}
    (h : s.toList = 'S' :: front ++ n.text.toList) : Text.trim s = s := by
  have htrimmed : Text.Trimmed s.toList := by
    rw [h]
    refine ⟨fun c hc => ?_, fun c hc => n.trimmed_text.2 c ?_⟩
    · obtain rfl : 'S' = c := Option.some.inj hc
      decide
    · rwa [List.getLast?_append_of_ne_nil _ n.text_ne_nil] at hc
  rw [Text.trim, Text.trimChars_of_trimmed htrimmed, String.ofList_toList]

end FlatQuery.Sql
