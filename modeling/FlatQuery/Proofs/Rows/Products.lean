import FlatQuery.Proofs.Rows.Conditions
import FlatQuery.Proofs.Text.Integer
import Mathlib.Algebra.BigOperators.Group.List.Basic
import Mathlib.Algebra.Ring.Int.Defs

/-!
# What SUM adds for a row

Which terms are products (`Term.IsProduct`), of which factors (`Term.factors`), and what a product
comes to over a row (`Term.Multiplies`), said without evaluating anything.  Evaluation checks the
range at every multiplication (`Term.multiplications`).  So a term has a summand exactly if it is a
product whose factors all stand for integers and no multiplication in it leaves the range, and the
summand is the exact product of the factors (`summand_exact`).  Grouping the factors in another way
may lose the value, but never gives another one.
-/

namespace FlatQuery

open Outcome
open Rows (Error)

namespace Term

/-! ### Products -/

/-- Literals, columns, multiplications of two products, and products between parentheses. -/
inductive IsProduct : Term → Prop
  | literal (v : Literal) : IsProduct (literal v)
  | field (i : Nat) (label : String) : IsProduct (field i label)
  | times {l r : Term} : IsProduct l → IsProduct r → IsProduct (binary l .times r)
  | nested {t : Term} : IsProduct t → IsProduct (nested t)

/-- The factors of a product, from left to right. -/
def factors : Term → List Term
  | nested t => t.factors
  | binary l .times r => l.factors ++ r.factors
  | t => [t]

/-- The multiplications in a product, each before those inside it. -/
def multiplications : Term → List Term
  | nested t => t.multiplications
  | binary l .times r => binary l .times r :: (l.multiplications ++ r.multiplications)
  | _ => []

/-- That the factors of a product all stand for integers over a row, the exact product of which is
`n`. -/
def Multiplies (row : Row) (t : Term) (n : Int) : Prop :=
  ∃ values, List.Forall₂ (Denotes row) t.factors values ∧ values.prod = n

variable {row : Row} {t u l r : Term} {m n : Int}

theorem multiplies_iff_of_factors (h : t.factors = [t]) :
    t.Multiplies row n ↔ t.Denotes row n := by
  unfold Multiplies
  rw [h]
  constructor
  · rintro ⟨values, hvalues, rfl⟩
    obtain ⟨k, rest, hk, hrest, rfl⟩ := List.forall₂_cons_left_iff.mp hvalues
    obtain rfl := List.forall₂_nil_left_iff.mp hrest
    rwa [List.prod_singleton]
  · intro hn
    exact ⟨[n], .cons hn .nil, List.prod_singleton⟩

theorem multiplies_times_iff : (binary l .times r).Multiplies row n ↔
    ∃ a b, l.Multiplies row a ∧ r.Multiplies row b ∧ n = a * b := by
  constructor
  · rintro ⟨values, hvalues, rfl⟩
    have hleft := (List.forall₂_take_append values l.factors r.factors hvalues.flip).flip
    have hright := (List.forall₂_drop_append values l.factors r.factors hvalues.flip).flip
    refine ⟨_, _, ⟨_, hleft, rfl⟩, ⟨_, hright, rfl⟩, ?_⟩
    rw [← List.prod_append, List.take_append_drop]
  · rintro ⟨a, b, ⟨xs, hxs, rfl⟩, ⟨ys, hys, rfl⟩, rfl⟩
    exact ⟨xs ++ ys, List.rel_append hxs hys, List.prod_append⟩

/-- What a product comes to depends neither on the order of its factors nor on how they are
grouped. -/
theorem Multiplies.eq_of_perm (hp : t.factors.Perm u.factors) (ht : t.Multiplies row m)
    (hu : u.Multiplies row n) : m = n := by
  obtain ⟨xs, hxs, rfl⟩ := ht
  obtain ⟨ys, hys, rfl⟩ := hu
  obtain ⟨zs, hzs, hperm⟩ := List.perm_comp_forall₂ hp.symm hxs
  have hunique : Relator.RightUnique (Denotes row) := fun _ _ _ h h' => h.unique h'
  obtain rfl := List.right_unique_forall₂' hunique hzs hys
  exact hperm.prod_eq.symm

/-- A term comes to some integer exactly if each of its factors stands for one. -/
theorem exists_multiplies_iff :
    (∃ n, t.Multiplies row n) ↔ ∀ f ∈ t.factors, ∃ k, f.Denotes row k := by
  simp only [← operand_eq_ok_iff]
  rw [← exists_mapM_iff]
  simp only [mapM_eq_ok_iff, operand_eq_ok_iff]
  constructor
  · rintro ⟨_, values, hvalues, -⟩
    exact ⟨values, hvalues⟩
  · rintro ⟨values, hvalues⟩
    exact ⟨_, values, hvalues, rfl⟩

theorem Multiplies.isProduct (h : t.Multiplies row n) : t.IsProduct := by
  induction t generalizing n with
  | literal v => exact .literal v
  | field i label => exact .field i label
  | nested t ih => exact .nested (ih h)
  | call text => cases (multiplies_iff_of_factors rfl).mp h
  | binary l op r ihl ihr =>
    cases op with
    | times =>
      obtain ⟨a, b, ha, hb, -⟩ := multiplies_times_iff.mp h
      exact .times (ihl ha) (ihr hb)
    | _ => cases (multiplies_iff_of_factors rfl).mp h

/-! ### Evaluation -/

/-- A multiplication has a value if its sides do and their product is in range. -/
theorem summand_times_eq_ok_iff : (binary l .times r).summand row = .ok n ↔
    ∃ a, l.summand row = .ok a ∧ ∃ b, r.summand row = .ok b ∧
      Integer.fits (a * b) = true ∧ n = a * b := by
  rw [summand]
  simp only [bind_eq_ok_iff]
  refine exists_congr fun a => and_congr_right fun _ => exists_congr fun b =>
    and_congr_right fun _ => ?_
  have hchecked : Integer.mul? a b = some n ↔ Integer.fits (a * b) = true ∧ n = a * b :=
    Integer.checked_eq_some_iff
  rw [← hchecked]
  cases Integer.mul? a b with
  | none => simp
  | some k => rw [Option.some.injEq, Except.ok.injEq]

/-- A term has a value exactly if it comes to that value and none of its multiplications leaves the
range. -/
theorem summand_eq_ok_iff : t.summand row = .ok n ↔ t.Multiplies row n ∧
    ∀ m ∈ t.multiplications, ∀ k, m.Multiplies row k → Integer.fits k = true := by
  have hleaf : ∀ {t : Term} {n : Int}, t.factors = [t] → t.multiplications = [] →
      t.summand row = t.operand row → (t.summand row = .ok n ↔ t.Multiplies row n ∧
        ∀ m ∈ t.multiplications, ∀ k, m.Multiplies row k → Integer.fits k = true) := by
    intro t n hfactors hnone heq
    rw [heq, operand_eq_ok_iff, multiplies_iff_of_factors hfactors, hnone]
    exact (and_iff_left nofun).symm
  induction t generalizing n with
  | literal v => exact hleaf rfl rfl rfl
  | field i label => exact hleaf rfl rfl rfl
  | call text => exact iff_of_false nofun fun h => nomatch (multiplies_iff_of_factors rfl).mp h.1
  | nested t ih => exact ih
  | binary l op r ihl ihr =>
    cases op with
    | times =>
      rw [summand_times_eq_ok_iff, multiplications, List.forall_mem_cons, List.forall_mem_append]
      constructor
      · rintro ⟨a, ha, b, hb, hfits, rfl⟩
        obtain ⟨ha, hleft⟩ := ihl.mp ha
        obtain ⟨hb, hright⟩ := ihr.mp hb
        have hab : (binary l .times r).Multiplies row (a * b) :=
          multiplies_times_iff.mpr ⟨a, b, ha, hb, rfl⟩
        refine ⟨hab, ?_, hleft, hright⟩
        intro k hk
        rwa [hk.eq_of_perm (.refl _) hab]
      · rintro ⟨hn, hfits, hleft, hright⟩
        obtain ⟨a, b, ha, hb, rfl⟩ := multiplies_times_iff.mp hn
        exact ⟨a, ihl.mpr ⟨ha, hleft⟩, b, ihr.mpr ⟨hb, hright⟩, hfits _ hn, rfl⟩
    | _ => exact iff_of_false nofun fun h => nomatch (multiplies_iff_of_factors rfl).mp h.1

/-- What a literal or a field stands for is in range, if the integer literals are. -/
theorem Denotes.fits (h : t.Denotes row n)
    (hliterals : ∀ k, literal (.integer k) ∈ t.factors → Integer.fits k = true) :
    Integer.fits n = true := by
  induction h with
  | integer k => exact hliterals k (List.mem_singleton_self _)
  | string hs => exact Integer.fits_of_ofField hs
  | field _ _ hs => exact Integer.fits_of_ofField hs
  | nested _ ih => exact ih hliterals

theorem fits_of_summand (h : t.summand row = .ok n)
    (hliterals : ∀ k, literal (.integer k) ∈ t.factors → Integer.fits k = true) :
    Integer.fits n = true := by
  induction t with
  | literal v =>
    have hv : (literal v).operand row = .ok n := h
    exact (operand_eq_ok_iff.mp hv).fits hliterals
  | field i label =>
    have hv : (field i label).operand row = .ok n := h
    exact (operand_eq_ok_iff.mp hv).fits hliterals
  | call text => cases h
  | nested t ih => exact ih h hliterals
  | binary l op r _ _ =>
    cases op with
    | times =>
      obtain ⟨a, -, b, -, hfits, rfl⟩ := summand_times_eq_ok_iff.mp h
      exact hfits
    | _ => cases h

/-- **What SUM adds for a row is the exact product.**  A term has a summand exactly if it is a
product, all its factors stand for integers over the row, and what each multiplication in it comes
to is in range; the summand is then the product of the integers, without wrapping.  So it stays in
range, if the integer literals do, and two terms with the same factors, in whatever order and
however grouped, have the same summand where they have one. -/
theorem summand_exact (row : Row) (t : Term) :
    (∀ n, t.summand row = .ok n ↔
      t.IsProduct ∧ (∀ f ∈ t.factors, ∃ k, f.Denotes row k) ∧
        (∀ m ∈ t.multiplications, ∀ k, m.Multiplies row k → Integer.fits k = true) ∧
        t.Multiplies row n) ∧
      ((∀ k, literal (.integer k) ∈ t.factors → Integer.fits k = true) →
        ∀ n, t.summand row = .ok n → Integer.fits n = true) ∧
      ∀ (u : Term) (m n : Int), u.factors.Perm t.factors → u.summand row = .ok m →
        t.summand row = .ok n → m = n := by
  refine ⟨?_, fun hliterals n h => fits_of_summand h hliterals, ?_⟩
  · intro n
    rw [summand_eq_ok_iff]
    constructor
    · rintro ⟨hn, hfits⟩
      exact ⟨hn.isProduct, exists_multiplies_iff.mp ⟨n, hn⟩, hfits, hn⟩
    · rintro ⟨-, -, hfits, hn⟩
      exact ⟨hn, hfits⟩
  · intro u m n hp hm hn
    exact (summand_eq_ok_iff.mp hm).1.eq_of_perm hp (summand_eq_ok_iff.mp hn).1

/-- Half of the least integer, negated and doubled again: two of the groupings give the least
integer, and the one that doubles first leaves the range on the way. -/
theorem summand_exact_sample :
    let row : Row := ⟨["4611686018427387904"]⟩
    let a := field 0 "a"
    let number := fun n => literal (.integer n)
    let negatedFirst := binary (binary a .times (number (-1))) .times (number 2)
    let factorsFirst := binary a .times (nested (binary (number (-1)) .times (number 2)))
    let doubledFirst := binary (binary a .times (number 2)) .times (number (-1))
    negatedFirst.Multiplies row (-9223372036854775808) ∧
      Integer.fits (-9223372036854775808) = true ∧
      factorsFirst.summand row = negatedFirst.summand row ∧
      doubledFirst.factors.Perm negatedFirst.factors ∧
      doubledFirst.summand row = .error (.productOverflow 4611686018427387904 2) := by
  intro row a number negatedFirst factorsFirst doubledFirst
  have hnegated : negatedFirst.summand row = .ok (-9223372036854775808) := by decide +kernel
  have hfactors : ∃ n, factorsFirst.summand row = .ok n :=
    ⟨-9223372036854775808, by decide +kernel⟩
  obtain ⟨hexact, hrange, hgrouped⟩ := summand_exact row negatedFirst
  have hliterals : ∀ k, literal (.integer k) ∈ negatedFirst.factors → Integer.fits k = true := by
    intro k hk
    have hk : k = -1 ∨ k = 2 := by simpa [negatedFirst, factors, a, number] using hk
    rcases hk with rfl | rfl
    · rfl
    · rfl
  refine ⟨((hexact _).mp hnegated).2.2.2, hrange hliterals _ hnegated, ?_, by decide,
    by decide +kernel⟩
  obtain ⟨n, hn⟩ := hfactors
  obtain rfl := hgrouped factorsFirst n _ (by decide) hn hnegated
  rw [hn, hnegated]

end Term

end FlatQuery
