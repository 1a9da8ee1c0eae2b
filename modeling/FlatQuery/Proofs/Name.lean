import FlatQuery.Name
import Mathlib.Data.List.DropRight

/-!
# Canonical names are canonical

Taking the canonical form twice is taking it once (`Name.canonical_canonical`), and a canonical name
has nothing to trim (`Name.trim_canonical`).  Both come down to the tables of lower case: a partner
is never a capital itself, and never blank.
-/

namespace FlatQuery.Text

/-! ### Trimming -/

theorem dropEndWhile_eq_rdropWhile {α : Type} (p : α → Bool) (l : List α) :
    dropEndWhile p l = l.rdropWhile p := by
  induction l with
  | nil => rfl
  | cons a rest ih =>
    have hcons : dropEndWhile p (a :: rest) =
        if (dropEndWhile p rest).isEmpty && p a then [] else a :: dropEndWhile p rest := rfl
    rw [hcons, ih]
    simp only [List.rdropWhile, List.reverse_cons, List.dropWhile_append, List.isEmpty_reverse,
      List.isEmpty_iff]
    by_cases hr : rest.reverse.dropWhile p = []
    · cases hp : p a <;> simp [hr, hp]
    · simp [hr]

/-- A text with no blank characters at either end. -/
def Trimmed (cs : List Char) : Prop :=
  (∀ c ∈ cs.head?, isBlank c = false) ∧ ∀ c ∈ cs.getLast?, isBlank c = false

theorem trimmed_trimChars (cs : List Char) : Trimmed (trimChars cs) := by
  unfold trimChars
  rw [dropEndWhile_eq_rdropWhile]
  refine ⟨fun c hc => ?_, fun c hc => ?_⟩
  · -- what is cut at the end does not change the head
    obtain ⟨back, hb⟩ := List.rdropWhile_prefix isBlank (cs.dropWhile isBlank)
    have hhead : (cs.dropWhile isBlank).head? = some c := by
      rw [← hb, List.head?_append, Option.mem_def.mp hc]
      rfl
    have hnot := List.head?_dropWhile_not isBlank cs
    rw [hhead] at hnot
    exact Bool.eq_false_iff.mpr fun h => by simp [h] at hnot
  · obtain ⟨hne, hlast⟩ := List.mem_getLast?_eq_getLast hc
    rw [hlast]
    exact Bool.eq_false_iff.mpr (List.rdropWhile_last_not isBlank _ hne)

theorem trimChars_of_trimmed {cs : List Char} (h : Trimmed cs) : trimChars cs = cs := by
  obtain ⟨hhead, hlast⟩ := h
  have hdrop : cs.dropWhile isBlank = cs := by
    cases cs with
    | nil => rfl
    | cons c rest => exact List.dropWhile_cons_of_neg (by simp [hhead c rfl])
  unfold trimChars
  rw [dropEndWhile_eq_rdropWhile, hdrop, List.rdropWhile_eq_self_iff]
  intro hne
  simp [hlast _ (List.getLast?_eq_getLast_of_ne_nil hne)]

theorem trimmed_of_all {cs : List Char} (h : ∀ c ∈ cs, isBlank c = false) : Trimmed cs :=
  ⟨fun c hc => h c (List.mem_of_mem_head? hc), fun c hc => h c (List.mem_of_mem_getLast? hc)⟩

theorem mem_of_mem_trimChars {cs : List Char} {c : Char} (h : c ∈ trimChars cs) : c ∈ cs := by
  rw [trimChars, dropEndWhile_eq_rdropWhile] at h
  have hfront := List.rdropWhile_prefix isBlank (cs.dropWhile isBlank)
  exact (List.dropWhile_suffix isBlank).subset (hfront.subset h)

theorem trim_trim (s : String) : trim (trim s) = trim s := by
  unfold trim
  rw [String.toList_ofList, trimChars_of_trimmed (trimmed_trimChars s.toList)]

theorem trimChars_append_blank {ds : List Char} (h : ∀ c ∈ ds, isBlank c = true) (cs : List Char) :
    trimChars (cs ++ ds) = trimChars cs := by
  rw [trimChars, trimChars, List.dropWhile_append, dropEndWhile_eq_rdropWhile,
    dropEndWhile_eq_rdropWhile]
  split
  · next hempty =>
    have hnil : cs.dropWhile isBlank = [] := by simpa using hempty
    rw [hnil, List.dropWhile_eq_nil_iff.mpr h]
  · rw [List.rdropWhile, List.reverse_append,
      List.dropWhile_append_of_pos fun c hc => h c (List.mem_reverse.mp hc)]
    rfl

theorem trimChars_blank_append {ds : List Char} (h : ∀ c ∈ ds, isBlank c = true) (cs : List Char) :
    trimChars (ds ++ cs) = trimChars cs := by
  rw [trimChars, trimChars, List.dropWhile_append_of_pos h]

theorem exists_trimChars (cs : List Char) : ∃ front back,
    (∀ c ∈ front, isBlank c = true) ∧ (∀ c ∈ back, isBlank c = true) ∧
      cs = front ++ trimChars cs ++ back := by
  refine ⟨cs.takeWhile isBlank, (cs.dropWhile isBlank).rtakeWhile isBlank,
    fun c hc => List.mem_takeWhile_imp hc, fun c hc => List.mem_rtakeWhile_imp hc, ?_⟩
  have hback : trimChars cs ++ (cs.dropWhile isBlank).rtakeWhile isBlank =
      cs.dropWhile isBlank := by
    rw [trimChars, dropEndWhile_eq_rdropWhile, List.rdropWhile, List.rtakeWhile,
      ← List.reverse_append, List.takeWhile_append_dropWhile, List.reverse_reverse]
  rw [List.append_assoc, hback, List.takeWhile_append_dropWhile]

theorem trimChars_eq_iff {cs ds : List Char} : trimChars cs = ds ↔ Trimmed ds ∧
    ∃ front back, (∀ c ∈ front, isBlank c = true) ∧ (∀ c ∈ back, isBlank c = true) ∧
      cs = front ++ ds ++ back := by
  constructor
  · rintro rfl
    exact ⟨trimmed_trimChars cs, exists_trimChars cs⟩
  · rintro ⟨hds, front, back, hfront, hback, rfl⟩
    rw [trimChars_append_blank hback, trimChars_blank_append hfront, trimChars_of_trimmed hds]

theorem isBlank_of_ascii {c : Char} (h : 0x20 < c.toNat) (h' : c.toNat < 0x80) :
    isBlank c = false := by
  refine Bool.eq_false_iff.mpr fun hblank => ?_
  simp only [isBlank, blankRanges, Ranges.holds, List.any_cons, List.any_nil, Bool.or_eq_true,
    Bool.and_eq_true, decide_eq_true_eq, Bool.or_false] at hblank
  omega

/-! ### The tables of lower case -/

/-- Whether no partner of a run is among the characters of another.  Where the two overlap, both
take every second character, one the even and one the odd. -/
def CaseRun.apart (r other : CaseRun) : Bool :=
  Nat.blt (r.target + (r.last - r.first)) other.first || Nat.blt other.last r.target ||
    (Nat.beq other.step 2 && (Nat.beq r.step 2 || Nat.beq r.first r.last) &&
      Nat.beq (r.target % 2 + other.first % 2) 1)

theorem CaseRun.not_covers_partner {r other : CaseRun} (h : r.apart other = true) {c : Nat}
    (hc : r.covers c = true) : other.covers (r.partner c) = false := by
  simp only [apart, Bool.or_eq_true, Bool.and_eq_true, Nat.blt_eq, Nat.beq_eq] at h
  simp only [covers, Bool.and_eq_true, decide_eq_true_eq, beq_iff_eq] at hc
  refine Bool.eq_false_iff.mpr ?_
  intro ho
  simp only [covers, Bool.and_eq_true, decide_eq_true_eq, beq_iff_eq] at ho
  simp only [partner] at ho
  obtain ⟨⟨hfirst, hlast⟩, hstep⟩ := hc
  obtain ⟨⟨hfirst', hlast'⟩, hstep'⟩ := ho
  rcases h with (h | h) | ⟨⟨h', h | h⟩, hodd⟩
  · omega
  · omega
  · rw [h] at hstep
    rw [h'] at hstep'
    omega
  · rw [h'] at hstep'
    omega

/-- The runs of characters that are not in lower case, or blank. -/
def otherRuns : List CaseRun :=
  ⟨0x130, 0x130, 1, 0⟩ :: blankRanges.map (fun r => ⟨r.1, r.2, 1, 0⟩) ++ caseRuns

theorem apart_otherRuns : (caseRuns.all fun r => otherRuns.all r.apart) = true := by
  decide +kernel

theorem partner_isValidChar : (caseRuns.all fun r =>
    Nat.blt (r.target + (r.last - r.first)) 0xD800 ||
      (Nat.ble 0xE000 r.target && Nat.blt (r.target + (r.last - r.first)) 0x110000)) = true := by
  decide +kernel

/-- A character that lower case leaves as it is. -/
def IsLower (c : Char) : Prop :=
  c ≠ 'İ' ∧ c ≠ 'Σ' ∧ lowerChar c = c

instance (c : Char) : Decidable (IsLower c) := inferInstanceAs (Decidable (_ ∧ _ ∧ _))

/-- A partner is in no run of characters that are not in lower case, or blank. -/
theorem lowerChar_cases (c : Char) :
    lowerChar c = c ∨ ∀ other ∈ otherRuns, other.covers (lowerChar c).toNat = false := by
  cases hf : caseRuns.find? (·.covers c.toNat) with
  | none =>
    left
    simp only [lowerChar, hf]
  | some r =>
    right
    intro other ho
    have hr := List.mem_of_find?_eq_some hf
    have hc : r.covers c.toNat = true := (List.find?_eq_some_iff_append.mp hf).1
    have happart := List.all_eq_true.mp (List.all_eq_true.mp apart_otherRuns r hr) other ho
    have hvalid : (r.partner c.toNat).isValidChar := by
      have h := List.all_eq_true.mp partner_isValidChar r hr
      simp only [Bool.or_eq_true, Bool.and_eq_true, Nat.blt_eq, Nat.ble_eq] at h
      simp only [CaseRun.covers, Bool.and_eq_true, decide_eq_true_eq] at hc
      simp only [CaseRun.partner, Nat.isValidChar]
      omega
    have hnat : (Char.ofNat (r.partner c.toNat)).toNat = r.partner c.toNat := by
      rw [Char.ofNat, dif_pos hvalid]
      rfl
    simp only [lowerChar, hf, hnat]
    exact CaseRun.not_covers_partner happart hc

theorem isLower_of_not_covers {x : Char}
    (h : ∀ other ∈ otherRuns, other.covers x.toNat = false) : IsLower x ∧ isBlank x = false := by
  have hrun : ∀ r ∈ caseRuns, r.covers x.toNat = false := fun r hr =>
    h r (List.mem_append_right _ hr)
  refine ⟨⟨?_, ?_, ?_⟩, ?_⟩
  · rintro rfl
    exact absurd (h _ (List.mem_cons_self ..)) (by decide)
  · rintro rfl
    exact absurd (hrun ⟨0x3A3, 0x3AB, 1, 0x3C3⟩ (by decide)) (by decide)
  · have hf : caseRuns.find? (·.covers x.toNat) = none :=
      List.find?_eq_none.mpr fun r hr => by simp [hrun r hr]
    simp only [lowerChar, hf]
  · refine List.any_eq_false.mpr ?_
    intro b hb hx
    have := h ⟨b.1, b.2, 1, 0⟩ (List.mem_append_left _
      (List.mem_cons_of_mem _ (List.mem_map_of_mem hb)))
    simp only [CaseRun.covers, Nat.mod_one, beq_self_eq_true, Bool.and_true] at this
    exact absurd hx (by simp [this])

/-! ### Lower case -/

/-- Lower case gives characters in lower case, and gives blank ones for blank ones only. -/
theorem isLower_of_mem_lowerIn {before after : List Char} {c x : Char}
    (h : x ∈ lowerIn before c after) : IsLower x ∧ (isBlank c = false → isBlank x = false) := by
  unfold lowerIn at h
  split at h
  · simp only [List.mem_cons, List.not_mem_nil, or_false] at h
    rcases h with rfl | rfl
    · exact ⟨by decide, fun _ => by decide⟩
    · exact ⟨by decide, fun _ => by decide⟩
  · rename_i hI
    split at h
    · rw [List.mem_singleton] at h
      split at h
      · exact h ▸ ⟨by decide, fun _ => by decide⟩
      · exact h ▸ ⟨by decide, fun _ => by decide⟩
    · rename_i hS
      rw [List.mem_singleton] at h
      subst h
      rcases lowerChar_cases c with hc | hc
      · rw [hc]
        exact ⟨⟨hI, hS, hc⟩, id⟩
      · exact ⟨(isLower_of_not_covers hc).1, fun _ => (isLower_of_not_covers hc).2⟩

theorem lowerIn_ne_nil (before : List Char) (c : Char) (after : List Char) :
    lowerIn before c after ≠ [] := by
  unfold lowerIn
  split
  · simp
  · split <;> simp

theorem isLower_of_mem_lowerAfter {before cs : List Char} {x : Char}
    (h : x ∈ lowerAfter before cs) : IsLower x := by
  induction cs generalizing before with
  | nil => simp [lowerAfter] at h
  | cons c rest ih =>
    rcases List.mem_append.mp h with h | h
    · exact (isLower_of_mem_lowerIn h).1
    · exact ih h

theorem lowerAfter_of_isLower {before cs : List Char} (h : ∀ c ∈ cs, IsLower c) :
    lowerAfter before cs = cs := by
  induction cs generalizing before with
  | nil => rfl
  | cons c rest ih =>
    obtain ⟨hI, hS, hc⟩ := h c (List.mem_cons_self ..)
    have hrest := @ih (c :: before) fun d hd => h d (List.mem_cons_of_mem _ hd)
    simp only [lowerAfter, lowerIn, hI, hS, hc, hrest, if_false, List.singleton_append]

theorem lowercase_lowercase (s : String) : lowercase (lowercase s) = lowercase s := by
  unfold lowercase
  rw [String.toList_ofList, lowerAfter_of_isLower fun c hc => isLower_of_mem_lowerAfter hc]

theorem lowerAfter_eq_nil {before cs : List Char} (h : lowerAfter before cs = []) : cs = [] := by
  cases cs with
  | nil => rfl
  | cons c rest => exact absurd (List.append_eq_nil_iff.mp h).1 (lowerIn_ne_nil _ _ _)

/-- The last character of a text in lower case comes from the last character of the text. -/
theorem mem_getLast?_lowerAfter {before cs : List Char} {x : Char}
    (h : x ∈ (lowerAfter before cs).getLast?) :
    ∃ c ∈ cs.getLast?, ∃ b a, x ∈ lowerIn b c a := by
  induction cs generalizing before with
  | nil => simp [lowerAfter] at h
  | cons c rest ih =>
    cases rest with
    | nil =>
      simp only [lowerAfter, List.append_nil] at h
      exact ⟨c, rfl, before, [], List.mem_of_getLast? h⟩
    | cons d rest =>
      have hne : lowerAfter (c :: before) (d :: rest) ≠ [] := by
        intro hn
        simpa using lowerAfter_eq_nil hn
      rw [lowerAfter, List.getLast?_append_of_ne_nil _ hne] at h
      exact ih h

theorem trimmed_lowerAfter {cs : List Char} (h : Trimmed cs) : Trimmed (lowerAfter [] cs) := by
  refine ⟨fun x hx => ?_, fun x hx => ?_⟩
  · cases cs with
    | nil => simp [lowerAfter] at hx
    | cons c rest =>
      have hin : x ∈ lowerIn [] c rest := by
        rw [lowerAfter, List.head?_append_of_ne_nil _ (lowerIn_ne_nil [] c rest)] at hx
        exact List.mem_of_head? hx
      exact (isLower_of_mem_lowerIn hin).2 (h.1 c rfl)
  · obtain ⟨c, hc, b, a, hin⟩ := mem_getLast?_lowerAfter hx
    exact (isLower_of_mem_lowerIn hin).2 (h.2 c hc)

end FlatQuery.Text

namespace FlatQuery.Name

open Text

@[simp] theorem trim_canonical (s : String) : trim (canonical s) = canonical s := by
  unfold canonical lowercase
  rw [trim, String.toList_ofList, trimChars_of_trimmed]
  refine trimmed_lowerAfter ?_
  rw [trim, String.toList_ofList]
  exact trimmed_trimChars s.toList

@[simp] theorem canonical_canonical (s : String) : canonical (canonical s) = canonical s := by
  rw [canonical, trim_canonical]
  exact lowercase_lowercase (trim s)

theorem trim_of_canonical_empty {s : String} (h : canonical s = "") : trim s = "" := by
  have hnil : lowerAfter [] (trim s).toList = [] := by
    rw [← String.toList_ofList (l := lowerAfter [] (trim s).toList)]
    exact congrArg String.toList h
  rw [← String.ofList_toList (s := trim s), lowerAfter_eq_nil hnil]

/-! ### Sets of names -/

@[simp] theorem mem_insert {a b : String} {names : List String} :
    a ∈ insert b names ↔ a = b ∨ a ∈ names := by
  induction names with
  | nil => simp [insert]
  | cons c names ih =>
    unfold insert
    split
    · rename_i hb
      simp [hb]
    · split
      · simp
      · rw [List.mem_cons, ih, List.mem_cons]
        exact or_left_comm

@[simp] theorem mem_sorted {a : String} {names : List String} : a ∈ sorted names ↔ a ∈ names := by
  have hfold : ∀ set : List String,
      a ∈ names.foldl (fun set name => insert name set) set ↔ a ∈ set ∨ a ∈ names := by
    induction names with
    | nil => simp
    | cons b names ih =>
      intro set
      rw [List.foldl_cons, ih, mem_insert, List.mem_cons, or_comm (a := a = b), or_assoc]
  exact (hfold []).trans (by simp)

end FlatQuery.Name
