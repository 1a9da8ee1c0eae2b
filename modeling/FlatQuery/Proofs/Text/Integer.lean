import FlatQuery.Proofs.Name
import FlatQuery.Text.Integer
import Mathlib.Data.Nat.Digits.Defs
import Mathlib.Data.Option.Basic

/-!
# Decimal notation

What is read from a text is a numeral in range (`ofChars_eq_some_iff`), for a field one that blanks
may surround (`ofField_eq_some_iff`); without a minus sign it is not negative (`nonneg_of_ofText`).
The decimal text of an integer is a numeral for it (`numeral_toText`), and is read as the integer if
that is in range (`ofText_toText`, `ofField_toText_of_fits`): a minus sign counts before the range is
checked, so the least integer is no exception.
-/

namespace FlatQuery.Integer

variable {n k : Int} {s : String} {cs : List Char}

/-! ### The range -/

theorem checked_eq_some_iff : checked n = some k ↔ fits n = true ∧ k = n := by
  unfold checked
  split
  case isTrue h => simp [h, eq_comm]
  case isFalse h => simp [h]

theorem fits_iff : fits n = true ↔ -9223372036854775808 ≤ n ∧ n ≤ 9223372036854775807 := by
  simp only [fits, Bool.and_eq_true, decide_eq_true_eq]

theorem fits_iff_pow : fits n = true ↔ -2 ^ 63 ≤ n ∧ n < 2 ^ 63 := by
  rw [fits_iff]
  omega

/-! ### Numerals -/

/-- One or more of the ten digits. -/
def Digits (ds : List Char) : Prop :=
  ds ≠ [] ∧ ∀ d ∈ ds, '0' ≤ d ∧ d ≤ '9'

/-- The value of digits by their places: the last one counts once, the one before it ten times, and
so on. -/
def placeValue (ds : List Char) : Nat :=
  Nat.ofDigits 10 (ds.reverse.map fun d => d.toNat - '0'.toNat)

/-- An optional sign and digits, and the integer they write. -/
inductive Numeral : List Char → Int → Prop
  | plain {ds : List Char} (h : Digits ds) : Numeral ds (placeValue ds)
  | plus {ds : List Char} (h : Digits ds) : Numeral ('+' :: ds) (placeValue ds)
  | minus {ds : List Char} (h : Digits ds) : Numeral ('-' :: ds) (-(placeValue ds : Int))

theorem isDigit_iff {c : Char} : isDigit c = true ↔ '0' ≤ c ∧ c ≤ '9' := by
  simp only [isDigit, Bool.and_eq_true, decide_eq_true_eq]

theorem toNat_of_isDigit {c : Char} (h : isDigit c = true) : 48 ≤ c.toNat ∧ c.toNat ≤ 57 := by
  simpa [isDigit, Char.le_def, UInt32.le_iff_toNat_le] using h

theorem ofDigits_eq_placeValue (ds : List Char) : ofDigits ds = placeValue ds := by
  induction ds using List.reverseRecOn with
  | nil => rfl
  | append_singleton ds d ih =>
    have hlast : ofDigits (ds ++ [d]) = 10 * ofDigits ds + (d.toNat - '0'.toNat) := by
      rw [ofDigits, List.foldl_concat]
      rfl
    rw [hlast, ih, placeValue, placeValue, List.reverse_concat, List.map_cons, Nat.ofDigits_cons,
      Nat.add_comm]

theorem Digits.isBlank {ds : List Char} (h : Digits ds) : ∀ d ∈ ds, Text.isBlank d = false := by
  intro d hd
  have hrange := toNat_of_isDigit (isDigit_iff.mpr (h.2 d hd))
  exact Text.isBlank_of_ascii (by omega) (by omega)

theorem Numeral.ne_nil (h : Numeral cs n) : cs ≠ [] := by
  cases h with
  | plain h => exact h.1
  | plus _ => exact List.cons_ne_nil _ _
  | minus _ => exact List.cons_ne_nil _ _

theorem Numeral.trimmed (h : Numeral cs n) : Text.Trimmed cs := by
  apply Text.trimmed_of_all
  cases h with
  | plain h => exact h.isBlank
  | plus h => exact List.forall_mem_cons.mpr ⟨by decide, h.isBlank⟩
  | minus h => exact List.forall_mem_cons.mpr ⟨by decide, h.isBlank⟩

/-! ### Reading -/

theorem unsigned_eq_some_iff {m : Nat} :
    unsigned? cs = some m ↔ Digits cs ∧ m = placeValue cs := by
  rw [unsigned?, ofDigits_eq_placeValue, Option.ite_none_right_eq_some, Option.some.injEq,
    @eq_comm _ m, Digits]
  simp only [Bool.and_eq_true, Bool.not_eq_true', List.isEmpty_eq_false_iff, List.all_eq_true,
    isDigit_iff]

theorem unsigned_of_digits (h : Digits cs) : unsigned? cs = some (placeValue cs) :=
  unsigned_eq_some_iff.mpr ⟨h, rfl⟩

theorem ofChars_of_numeral (h : Numeral cs n) : ofChars? cs = checked n := by
  cases h with
  | plus h => rw [ofChars?, unsigned_of_digits h, Option.bind_some]
  | minus h => rw [ofChars?, unsigned_of_digits h, Option.bind_some]
  | plain h =>
    have hsign : ∀ c, isDigit c = false → cs.head? ≠ some c := by
      intro c hc hhead
      rw [isDigit_iff.mpr (h.2 c (List.mem_of_mem_head? hhead))] at hc
      cases hc
    unfold ofChars?
    split
    case h_1 ds => exact absurd rfl (hsign '-' rfl)
    case h_2 ds => exact absurd rfl (hsign '+' rfl)
    case h_3 => rw [unsigned_of_digits h, Option.bind_some]

theorem ofChars_eq_some_iff : ofChars? cs = some n ↔ fits n = true ∧ Numeral cs n := by
  constructor
  · intro h
    unfold ofChars? at h
    split at h
    all_goals
      obtain ⟨m, hm, h⟩ := Option.bind_eq_some_iff.mp h
      obtain ⟨hdigits, rfl⟩ := unsigned_eq_some_iff.mp hm
      obtain ⟨hfits, rfl⟩ := checked_eq_some_iff.mp h
    · exact ⟨hfits, .minus hdigits⟩
    · exact ⟨hfits, .plus hdigits⟩
    · exact ⟨hfits, .plain hdigits⟩
  · rintro ⟨hfits, hnumeral⟩
    exact (ofChars_of_numeral hnumeral).trans (checked_eq_some_iff.mpr ⟨hfits, rfl⟩)

theorem fits_of_ofField (h : ofField? s = some n) : fits n = true :=
  (ofChars_eq_some_iff.mp h).1

theorem nonneg_of_ofText (hs : s.toList.head? ≠ some '-') (h : ofText? s = some n) : 0 ≤ n := by
  obtain ⟨-, hnumeral⟩ := ofChars_eq_some_iff.mp h
  generalize s.toList = cs at hs hnumeral
  cases hnumeral with
  | plain _ => exact Int.natCast_nonneg _
  | plus _ => exact Int.natCast_nonneg _
  | minus _ => exact absurd rfl hs

/-- A field writes an integer if it is a numeral in range that blanks may surround. -/
theorem ofField_eq_some_iff : ofField? s = some n ↔ fits n = true ∧ ∃ front cs back,
    (∀ c ∈ front, Text.isBlank c = true) ∧ (∀ c ∈ back, Text.isBlank c = true) ∧
      s.toList = front ++ cs ++ back ∧ Numeral cs n := by
  rw [ofField?, ofChars_eq_some_iff]
  refine and_congr_right fun _ => ⟨fun h => ?_, ?_⟩
  · obtain ⟨front, back, hfront, hback, hs⟩ := Text.exists_trimChars s.toList
    exact ⟨front, _, back, hfront, hback, hs, h⟩
  · rintro ⟨front, cs, back, hfront, hback, hs, h⟩
    rwa [Text.trimChars_eq_iff.mpr ⟨h.trimmed, front, back, hfront, hback, hs⟩]

/-! ### Writing -/

/-- The text of an integer: digits, after a minus sign if it is negative. -/
theorem toList_toString (n : Int) : (toString n).toList =
    if 0 ≤ n then Nat.toDigits 10 n.toNat else '-' :: Nat.toDigits 10 (-n).toNat := by
  rw [Int.toString_eq_repr, Int.repr_eq_if]
  split
  · rw [Nat.toList_repr]
  · rw [String.toList_append, Nat.toList_repr]
    rfl

theorem isDigit_of_mem_toDigits {n : Nat} {c : Char} (h : c ∈ Nat.toDigits 10 n) :
    isDigit c = true :=
  Nat.isDigit_of_mem_toDigits (by decide) (by decide) h

theorem digits_toDigits (n : Nat) : Digits (Nat.toDigits 10 n) :=
  ⟨Nat.toDigits_ne_nil, fun _ hd => isDigit_iff.mp (isDigit_of_mem_toDigits hd)⟩

theorem placeValue_toDigits (n : Nat) : placeValue (Nat.toDigits 10 n) = n := by
  rw [← ofDigits_eq_placeValue]
  exact Nat.ofDigitChars_ten_toDigits

theorem numeral_toText (n : Int) : Numeral (toText n).toList n := by
  rw [toText, toList_toString]
  split
  case isTrue h =>
    have hdigits := Numeral.plain (digits_toDigits n.toNat)
    rwa [placeValue_toDigits, Int.toNat_of_nonneg h] at hdigits
  case isFalse h =>
    have hdigits := Numeral.minus (digits_toDigits (-n).toNat)
    rwa [placeValue_toDigits, Int.toNat_of_nonneg (by omega), Int.neg_neg] at hdigits

/-- The decimal text of an integer is read as the integer, if that is in range. -/
theorem ofText_toText (n : Int) : ofText? (toText n) = checked n :=
  ofChars_of_numeral (numeral_toText n)

theorem ofField_toText (n : Int) : ofField? (toText n) = checked n := by
  rw [ofField?, Text.trimChars_of_trimmed (numeral_toText n).trimmed]
  exact ofText_toText n

theorem ofField_toText_of_fits (h : fits n = true) : ofField? (toText n) = some n :=
  (ofField_toText n).trans (checked_eq_some_iff.mpr ⟨h, rfl⟩)

end FlatQuery.Integer
