import FlatQuery.Proofs.Rows.Resolve
import FlatQuery.Rows.GroupSum
import FlatQuery.Rows.Sort

/-!
# Fields that are there

A reference that can be resolved in a scope points below the width of the scope
(`Scope.lt_width_of_resolve`).  So over rows of that width what has been bound in the scope never
looks for a field that is not there (`inPlace_holds`, `inPlace_summand`); what else may fail are
fields that are no integers, sums and products out of range, and terms in the wrong places.
-/

namespace FlatQuery

open Outcome

namespace Rows

/-! ### Errors about fields and columns -/

/-- Whether an error says that a field or a column is not there, or not the only one. -/
def Error.isMisplaced : Error → Bool
  | unknownColumn _ => true
  | ambiguousColumn _ => true
  | indexOutOfRange _ _ => true
  | _ => false

/-- That an outcome is not an error about a field or a column. -/
def InPlace {α : Type} (x : Except Error α) : Prop :=
  ∀ e, x = .error e → e.isMisplaced = false

variable {α β : Type}

theorem inPlace_ok (a : α) : InPlace (.ok a : Except Error α) :=
  failsWith_ok a

theorem inPlace_error {e : Error} (h : e.isMisplaced = false) :
    InPlace (.error e : Except Error α) :=
  failsWith_error h

theorem InPlace.bind {x : Except Error α} {f : α → Except Error β} (hx : InPlace x)
    (hf : ∀ a, x = .ok a → InPlace (f a)) : InPlace (x >>= f) :=
  FailsWith.bind hx hf

theorem inPlace_mapM {f : α → Except Error β} {xs : List α} (h : ∀ x ∈ xs, InPlace (f x)) :
    InPlace (xs.mapM f) :=
  failsWith_mapM h

theorem inPlace_of_exists {x : Except Error α} (h : ∃ a, x = .ok a) : InPlace x := by
  obtain ⟨a, rfl⟩ := h
  exact inPlace_ok a

/-! ### Fields of a row -/

theorem exists_get_iff {r : Row} {i : Nat} : (∃ field, r.get i = .ok field) ↔ i < r.width := by
  unfold Row.get
  cases hfield : r.fields[i]? with
  | none =>
    refine iff_of_false ?_ (Nat.not_lt.mpr (List.getElem?_eq_none_iff.mp hfield))
    rintro ⟨field, h⟩
    cases h
  | some field => exact iff_of_true ⟨field, rfl⟩ (List.getElem?_eq_some_iff.mp hfield).1

theorem exists_pick_iff {indexes : List Nat} {r : Row} :
    (∃ out, r.pick indexes = .ok out) ↔ ∀ i ∈ indexes, i < r.width := by
  simp only [← exists_get_iff, ← exists_mapM_iff]
  constructor
  · rintro ⟨out, h⟩
    obtain ⟨fields, hfields, -⟩ := bind_eq_ok_iff.mp h
    exact ⟨fields, hfields⟩
  · rintro ⟨fields, hfields⟩
    exact ⟨⟨fields⟩, bind_eq_ok_iff.mpr ⟨fields, hfields, rfl⟩⟩

theorem exists_of_pick_eq_error {indexes : List Nat} {r : Row} {e : Error}
    (h : r.pick indexes = .error e) : ∃ i ∈ indexes, r.width ≤ i ∧ e = .indexOutOfRange i r.width := by
  rcases bind_eq_error_iff.mp h with h | ⟨fields, -, h⟩
  · obtain ⟨i, hi, hget⟩ := exists_of_mapM_eq_error h
    refine ⟨i, hi, ?_⟩
    unfold Row.get at hget
    cases hfield : r.fields[i]? with
    | none =>
      rw [hfield] at hget
      exact ⟨List.getElem?_eq_none_iff.mp hfield, (Except.error.inj hget).symm⟩
    | some field =>
      rw [hfield] at hget
      cases hget
  · cases h

end Rows

/-! ### References and what is bound -/

namespace Scope

open Rows

theorem lt_width_of_resolve {s : Scope} {c : ColumnRef} {i : Nat} (h : s.resolve c = .ok i) :
    i < s.width := by
  cases s with
  | single t =>
    simp only [resolve] at h
    split at h
    · split at h
      · rename_i j hj
        cases h
        obtain ⟨hlt, -⟩ := List.idxOf?_eq_some_iff.mp hj
        exact hlt
      · cases h
    · cases h
  | joined ts =>
    obtain ⟨front, t, back, j, rfl, hj, rfl, -⟩ := exists_of_resolve_joined h
    obtain ⟨hlt, -⟩ := List.idxOf?_eq_some_iff.mp hj
    have hwidth : (joined (front ++ t :: back)).width = widthOf front + (t.width + widthOf back) :=
      widthOf_append front (t :: back)
    have hlt' : j < t.width := hlt
    omega

end Scope

namespace Rows

theorem inPlace_integer (field : String) : InPlace (Row.integer field) := by
  unfold Row.integer
  split
  · exact inPlace_ok _
  · exact inPlace_error rfl

theorem inPlace_literal (v : Literal) : InPlace v.value := by
  cases v with
  | integer n => exact inPlace_ok n
  | string s => exact inPlace_integer s

section Bound

variable {s : Scope} {e : Expr} {t : Term} {row : Row} (hw : row.width = s.width)

include hw

theorem inPlace_field {c : ColumnRef} {i : Nat} (h : s.resolve c = .ok i) :
    InPlace (row.get i >>= Row.integer) := by
  have hlt : i < row.width := hw ▸ Scope.lt_width_of_resolve h
  exact (inPlace_of_exists (exists_get_iff.mpr hlt)).bind fun field _ => inPlace_integer field

theorem inPlace_operand (h : s.bind e = .ok t) : InPlace (t.operand row) := by
  induction e using Expr.shallow generalizing t with
  | column c =>
    obtain ⟨i, hi, h⟩ := bind_eq_ok_iff.mp h
    cases h
    exact inPlace_field hw hi
  | literal v =>
    cases h
    exact inPlace_literal v
  | binary l op r ihl ihr =>
    obtain ⟨x, hx, h⟩ := bind_eq_ok_iff.mp h
    obtain ⟨y, hy, h⟩ := bind_eq_ok_iff.mp h
    cases h
    exact inPlace_error rfl
  | nested e ih =>
    obtain ⟨x, hx, h⟩ := bind_eq_ok_iff.mp h
    cases h
    have hx' := ih hx
    exact hx'
  | call name args =>
    cases h
    exact inPlace_error rfl

theorem inPlace_holds (h : s.bind e = .ok t) : InPlace (t.holds row) := by
  induction e using Expr.shallow generalizing t with
  | column c =>
    obtain ⟨i, hi, h⟩ := bind_eq_ok_iff.mp h
    cases h
    exact inPlace_error rfl
  | literal v =>
    cases h
    exact inPlace_error rfl
  | binary l op r ihl ihr =>
    obtain ⟨x, hx, h⟩ := bind_eq_ok_iff.mp h
    obtain ⟨y, hy, h⟩ := bind_eq_ok_iff.mp h
    cases h
    rw [Term.holds]
    split
    · exact (ihl hx).bind fun a _ => (ihr hy).bind fun b _ => inPlace_ok _
    · exact (inPlace_operand hw hx).bind fun a _ =>
        (inPlace_operand hw hy).bind fun b _ => inPlace_ok _
    · exact inPlace_error rfl
  | nested e ih =>
    obtain ⟨x, hx, h⟩ := bind_eq_ok_iff.mp h
    cases h
    have hx' := ih hx
    exact hx'
  | call name args =>
    cases h
    exact inPlace_error rfl

theorem inPlace_summand (h : s.bind e = .ok t) : InPlace (t.summand row) := by
  induction e using Expr.shallow generalizing t with
  | column c =>
    obtain ⟨i, hi, h⟩ := bind_eq_ok_iff.mp h
    cases h
    exact inPlace_field hw hi
  | literal v =>
    cases h
    exact inPlace_literal v
  | binary l op r ihl ihr =>
    obtain ⟨x, hx, h⟩ := bind_eq_ok_iff.mp h
    obtain ⟨y, hy, h⟩ := bind_eq_ok_iff.mp h
    cases h
    cases op with
    | times =>
      rw [Term.summand]
      refine (ihl hx).bind fun a _ => (ihr hy).bind fun b _ => ?_
      split
      · exact inPlace_ok _
      · exact inPlace_error rfl
    | _ => exact inPlace_error rfl
  | nested e ih =>
    obtain ⟨x, hx, h⟩ := bind_eq_ok_iff.mp h
    cases h
    have hx' := ih hx
    exact hx'
  | call name args =>
    cases h
    exact inPlace_error rfl

theorem inPlace_passes {condition : Option Expr} {on : Option Term}
    (h : s.bind? condition = .ok on) : InPlace (Term.passes on row) := by
  cases condition with
  | none =>
    cases h
    exact inPlace_ok true
  | some e =>
    obtain ⟨t, ht, h⟩ := bind_eq_ok_iff.mp h
    cases h
    exact inPlace_holds hw ht

end Bound

/-! ### Groups and sort keys -/

theorem inPlace_addSummands {row : Row} {ts : List Term} (h : ∀ t ∈ ts, InPlace (t.summand row))
    (sums : List Int) : InPlace (Group.addSummands row ts sums) := by
  induction ts generalizing sums with
  | nil => exact inPlace_ok []
  | cons t ts ih =>
    obtain ⟨ht, hts⟩ := List.forall_mem_cons.mp h
    cases sums with
    | nil => exact inPlace_ok []
    | cons sum sums =>
      rw [Group.addSummands]
      refine ht.bind fun n _ => ?_
      split
      · exact inPlace_error rfl
      · exact (ih hts sums).bind fun rest _ => inPlace_ok _

/-- A row that has the fields which are grouped by and shown, and whose terms are in place, is
gathered into groups. -/
theorem inPlace_addRow {spec : GroupSpec} {row : Row} (hkey : ∀ i ∈ spec.group, i < row.width)
    (hshown : ∀ i ∈ spec.shown, i < row.width) (hsums : ∀ t ∈ spec.sums, InPlace (t.summand row))
    (groups : List Group) : InPlace (spec.addRow groups row) := by
  have hadd : ∀ g : Group, InPlace (g.add spec row) := fun g =>
    (inPlace_addSummands hsums g.sums).bind fun sums _ => inPlace_ok _
  refine (inPlace_of_exists (exists_pick_iff.mpr hkey)).bind fun key _ => ?_
  induction groups with
  | nil =>
    exact (inPlace_of_exists (exists_pick_iff.mpr hshown)).bind fun shown _ =>
      (hadd _).bind fun g _ => inPlace_ok _
  | cons g rest ih =>
    rw [GroupSpec.addToGroups]
    split
    · exact (hadd g).bind fun g' _ => inPlace_ok _
    · exact ih.bind fun rest' _ => inPlace_ok _

theorem inPlace_sortRows {ks : List SortKey} {rows : List Row}
    (h : ∀ k ∈ ks, ∀ r ∈ rows, k.index < r.width) : InPlace (sortRows ks rows) := by
  have hkey : ∀ r ∈ rows, ∀ k ∈ ks, InPlace (k.value r) := fun r hr k hk =>
    (inPlace_of_exists (exists_get_iff.mpr (h k hk r hr))).bind fun field _ =>
      inPlace_integer field
  refine (inPlace_mapM fun r hr => ?_).bind fun keyed _ => inPlace_ok _
  exact (inPlace_mapM (hkey r hr)).bind fun keys _ => inPlace_ok _

end Rows

end FlatQuery
