import FlatQuery.Proofs.Sql.Scanned
import FlatQuery.Proofs.Text.Integer

/-!
# Numbers in tokens

A number among the tokens of a text has no sign (`unsigned_of_scan`): a minus sign is a token of its
own or starts a comment.  So decimal notation is cut into a minus sign, if there is one, and digits
(`scans_toText`).
-/

namespace FlatQuery.Sql

open Integer (isDigit toText)

/-! ### Numbers have no sign -/

/-- That characters do not start with a minus sign. -/
def Unsigned (cs : List Char) : Prop :=
  cs.head? ≠ some '-'

theorem unsigned_nil : Unsigned [] := nofun

theorem unsigned_cons {c : Char} {cs : List Char} (hc : c ≠ '-') : Unsigned (c :: cs) :=
  fun h => hc (Option.some.inj h)

theorem unsigned_append {xs ys : List Char} (hxs : Unsigned xs) (hys : Unsigned ys) :
    Unsigned (xs ++ ys) := by
  cases xs with
  | nil => exact hys
  | cons x xs => exact hxs

theorem unsigned_digits {cs : List Char} (hcs : ∀ c ∈ cs, isDigit c = true) : Unsigned cs := by
  intro h
  cases hcs '-' (List.mem_of_mem_head? h)

theorem unsigned_takeExponent (cs : List Char) : Unsigned (takeExponent cs).1 := by
  have hletter : ∀ {e : Char} {cs : List Char},
      (decide (e = 'e') || decide (e = 'E')) = true → Unsigned (e :: cs) := by
    intro e cs he
    simp only [Bool.or_eq_true, decide_eq_true_eq] at he
    obtain rfl | rfl := he
    · exact unsigned_cons (by decide)
    · exact unsigned_cons (by decide)
  unfold takeExponent
  split
  · exact unsigned_nil
  · split
    · rename_i he
      split
      · split
        · exact hletter he
        · split
          · exact hletter he
          · exact unsigned_nil
      · split
        · exact hletter he
        · exact unsigned_nil
      · exact unsigned_nil
    · exact unsigned_nil

/-- That a token is no number with a sign. -/
def Token.NoSign : Token → Prop
  | number digits _ => Unsigned digits.toList
  | _ => True

/-- That a step takes no number with a sign. -/
def Taken.NoSign (t : Taken) : Prop :=
  ∀ token ∈ t.1, token.NoSign

@[simp] theorem Token.noSign_word (name : Ident) : (word name).NoSign := trivial

@[simp] theorem Token.noSign_string (value : String) : (string value).NoSign := trivial

@[simp] theorem Token.noSign_constant (text : String) : (constant text).NoSign := trivial

@[simp] theorem Token.noSign_symbol (text : String) : (symbol text).NoSign := trivial

@[simp] theorem Taken.noSign_some {t : Token} {rest : List Char} :
    Taken.NoSign (some t, rest) ↔ t.NoSign :=
  ⟨fun h => h t rfl, by rintro h _ ⟨⟩; exact h⟩

@[simp] theorem Taken.noSign_none (rest : List Char) : Taken.NoSign (none, rest) := nofun

@[simp] theorem noSign_takeWord (front rest : List Char) : (takeWord front rest).NoSign := by
  simp [takeWord]

@[simp] theorem noSign_takeSymbol (cs : List Char) : (takeSymbol cs).NoSign := by
  unfold takeSymbol
  repeat' split
  all_goals simp

@[simp] theorem noSign_takeSharp (rest : List Char) : (takeSharp rest).NoSign := by
  unfold takeSharp
  repeat' split
  all_goals simp

@[simp] theorem noSign_takeAt (rest : List Char) : (takeAt rest).NoSign := by
  unfold takeAt
  repeat' split
  all_goals simp

/-- A number starts with a digit, a period or the letter of an exponent. -/
@[simp] theorem noSign_takeNumber (cs : List Char) : (takeNumber cs).NoSign := by
  have hrest : ∀ point rest : List Char, Unsigned point → Taken.NoSign
      (if cs.takeWhile isDigit ++ point ++ rest.takeWhile isDigit = ['.'] then
        (some (.symbol "."), rest.dropWhile isDigit)
      else
        (some (.number (String.ofList (cs.takeWhile isDigit ++ point ++ rest.takeWhile isDigit ++
            (takeExponent (rest.dropWhile isDigit)).1))
          (takeLong (takeExponent (rest.dropWhile isDigit)).2).1),
          (takeLong (takeExponent (rest.dropWhile isDigit)).2).2)) := by
    intro point rest hpoint
    split
    · simp
    · rw [Taken.noSign_some, Token.NoSign, String.toList_ofList]
      refine unsigned_append (unsigned_append (unsigned_append ?_ hpoint) ?_)
        (unsigned_takeExponent _)
      · exact unsigned_digits fun c hc => List.mem_takeWhile_imp hc
      · exact unsigned_digits fun c hc => List.mem_takeWhile_imp hc
  unfold takeNumber
  dsimp only
  split
  · simp
  · split
    · exact hrest _ _ (unsigned_cons (by decide))
    · exact hrest _ _ unsigned_nil

/-! ### No step takes a sign -/

/-- That a step, if it can be made, takes no number with a sign. -/
def NoSignIfAny (x : Option Taken) : Prop :=
  ∀ taken ∈ x, taken.NoSign

@[simp] theorem noSignIfAny_none : NoSignIfAny none := nofun

@[simp] theorem noSignIfAny_some {taken : Taken} : NoSignIfAny (some taken) ↔ taken.NoSign :=
  ⟨fun h => h taken rfl, by rintro h _ ⟨⟩; exact h⟩

theorem noSignIfAny_ite {p : Prop} [Decidable p] {x y : Option Taken} :
    NoSignIfAny (if p then x else y) ↔ (p → NoSignIfAny x) ∧ (¬ p → NoSignIfAny y) := by
  split
  case isTrue h => simp [h]
  case isFalse h => simp [h]

@[simp] theorem noSignIfAny_map {α : Type} {x : Option α} {f : α → Taken} :
    NoSignIfAny (x.map f) ↔ ∀ a ∈ x, (f a).NoSign := by
  cases x <;> simp

@[simp] theorem noSignIfAny_takeConstant (lead tail : String)
    (body : Option (List Char × List Char)) : NoSignIfAny (takeConstant lead tail body) := by
  simp [takeConstant]

@[simp] theorem noSignIfAny_takeDollar (rest : List Char) : NoSignIfAny (takeDollar rest) := by
  unfold takeDollar
  dsimp only
  split
  all_goals simp

@[simp] theorem noSignIfAny_takeLetter (c : Char) (rest : List Char) :
    NoSignIfAny (takeLetter c rest) := by
  unfold takeLetter
  repeat' split
  all_goals simp

theorem noSignIfAny_takeToken (afterWord : Bool) (c : Char) (rest : List Char) :
    NoSignIfAny (takeToken afterWord c rest) := by
  simp only [takeToken, noSignIfAny_ite]
  simp

theorem noSign_of_scanSteps {fuel : Nat} {afterWord : Bool} {cs : List Char} {ts : List Token}
    (h : scanSteps fuel afterWord cs = some ts) : ∀ t ∈ ts, t.NoSign := by
  fun_induction scanSteps fuel afterWord cs generalizing ts with
  | case1 =>
    obtain rfl := Option.some.inj h
    exact nofun
  | case2 => cases h
  | case3 => cases h
  | case4 fuel afterWord c rest taken htaken ih =>
    obtain ⟨more, hmore, rfl⟩ := Option.map_eq_some_iff.mp h
    refine List.forall_mem_append.mpr ⟨?_, ih hmore⟩
    intro t ht
    exact noSignIfAny_takeToken afterWord c rest taken htaken t (Option.mem_toList.mp ht)

theorem unsigned_of_scan {text digits : String} {ts : List Token} {long : Bool}
    (h : scan text = some ts) (hmem : .number digits long ∈ ts) : Unsigned digits.toList :=
  noSign_of_scanSteps h _ hmem

/-! ### Decimal notation in a text -/

section Decimal

variable {c : Char} {cs : List Char} {aw : Bool}

theorem takeNumber_digits (hc : isDigit c = true) (hcs : ∀ d ∈ cs, isDigit d = true) :
    takeNumber (c :: cs) = (some (.number (String.ofList (c :: cs)) false), []) := by
  have hall : ∀ d ∈ c :: cs, isDigit d = true := List.forall_mem_cons.mpr ⟨hc, hcs⟩
  have htake : (c :: cs).takeWhile isDigit = c :: cs := List.takeWhile_eq_self_iff.mpr hall
  have hdrop : (c :: cs).dropWhile isDigit = [] := List.dropWhile_eq_nil_iff.mpr hall
  have hpoint : c :: cs ≠ ['.'] := by
    intro h
    obtain rfl := List.head_eq_of_cons_eq h
    cases hc
  simp [takeNumber, htake, hdrop, hpoint, takeExponent, takeLong]

theorem ne_of_isDigit (hc : isDigit c = true) {d : Char} (hd : isDigit d = false) : c ≠ d := by
  rintro rfl
  rw [hc] at hd
  cases hd

theorem scans_digits (hc : isDigit c = true) (hcs : ∀ d ∈ cs, isDigit d = true) :
    Scans aw (c :: cs) [.number (String.ofList (c :: cs)) false] := by
  have hsharp : c ≠ '#' := ne_of_isDigit hc rfl
  have hat : c ≠ '@' := ne_of_isDigit hc rfl
  have hquote : c ≠ '\'' := ne_of_isDigit hc rfl
  have hdouble : c ≠ '"' := ne_of_isDigit hc rfl
  have hback : c ≠ '`' := ne_of_isDigit hc rfl
  have hperiod : c ≠ '.' := ne_of_isDigit hc rfl
  have hstart : startsWord c = false :=
    Bool.eq_false_iff.mpr fun h => ne_of_isDigit hc (isDigit_of_startsWord h) rfl
  have htake : takeToken aw c cs = some (some (.number (String.ofList (c :: cs)) false), []) := by
    simp only [takeToken, hsharp, hat, hstart, hquote, hdouble, hback, hperiod, hc,
      takeNumber_digits hc hcs, if_false, if_true, decide_false, Bool.or_false, Bool.false_and,
      Bool.false_eq_true]
  exact .step htake (Nat.zero_le _) (.nil _)

theorem scans_minus {ts : List Token} (hc : isDigit c = true) (h : Scans false (c :: cs) ts) :
    Scans aw ('-' :: c :: cs) (.symbol "-" :: ts) := by
  have hminus : c ≠ '-' := ne_of_isDigit hc rfl
  have hgreater : '>' ≠ c := (ne_of_isDigit hc rfl).symm
  have hsymbol : takeSymbol ('-' :: c :: cs) = (some (.symbol "-"), c :: cs) := by
    have hnone : (longSymbols.find? fun s => s.toList.isPrefixOf ('-' :: c :: cs)) = none := by
      simp [longSymbols, hgreater]
    unfold takeSymbol
    rw [hnone]
    rfl
  have hstart : startsWord '-' = false := by decide
  have hdigit : isDigit '-' = false := rfl
  have hblank : Text.isBlank '-' = false := by decide
  have htake : takeToken aw '-' (c :: cs) = some (some (.symbol "-"), c :: cs) := by
    rw [← hsymbol]
    simp [takeToken, hstart, hdigit, hblank, hminus]
  exact .step htake le_rfl h

end Decimal

def decimalTokens (v : Int) : List Token :=
  if v < 0 then [.symbol "-", .number (toText (-v)) false] else [.number (toText v) false]

/-- The text of an integer that is not negative is made of digits. -/
theorem exists_digits {v : Int} (hv : 0 ≤ v) : ∃ c cs, (toText v).toList = c :: cs ∧
    isDigit c = true ∧ ∀ d ∈ cs, isDigit d = true := by
  have hdigits : (toText v).toList = Nat.toDigits 10 v.toNat := by
    rw [toText, Integer.toList_toString, if_pos hv]
  obtain ⟨c, cs, hcs⟩ := List.exists_cons_of_ne_nil (Nat.toDigits_ne_nil (b := 10) (n := v.toNat))
  have hall : ∀ d ∈ c :: cs, isDigit d = true := fun d hd =>
    Integer.isDigit_of_mem_toDigits (hcs ▸ hd)
  exact ⟨c, cs, hdigits.trans hcs, List.forall_mem_cons.mp hall⟩

theorem toList_toText_of_neg {v : Int} (hv : v < 0) :
    (toText v).toList = '-' :: (toText (-v)).toList := by
  rw [toText, toText, Integer.toList_toString, Integer.toList_toString, if_neg (by omega),
    if_pos (by omega)]

/-- Decimal notation is cut into a minus sign, if there is one, and a number. -/
theorem scans_toText (v : Int) : Scans false (toText v).toList (decimalTokens v) := by
  unfold decimalTokens
  split
  case isTrue hv =>
    obtain ⟨c, cs, htext, hc, hcs⟩ := exists_digits (v := -v) (by omega)
    have hnumber : Scans false (c :: cs) _ := scans_digits hc hcs
    rw [← htext, String.ofList_toList, htext] at hnumber
    rw [toList_toText_of_neg hv, htext]
    exact scans_minus hc hnumber
  case isFalse hv =>
    obtain ⟨c, cs, htext, hc, hcs⟩ := exists_digits (v := v) (by omega)
    have hnumber : Scans false (c :: cs) _ := scans_digits hc hcs
    rwa [← htext, String.ofList_toList] at hnumber

end FlatQuery.Sql
