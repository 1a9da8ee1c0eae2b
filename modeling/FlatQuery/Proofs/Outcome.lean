import Mathlib.Data.List.Forall2

/-!
# Outcomes that succeed

When a sequence of steps that may fail succeeds, and with what: one step after another
(`bind_eq_ok_iff`) and a step for each member of a list (`mapM_eq_ok_iff`), which puts the members
and the results side by side (`getElem?_of_forall₂`, `exists_mem_of_forall₂`).
-/

namespace FlatQuery.Outcome

variable {ε α β : Type}

@[simp] theorem ok_bind (a : α) (f : α → Except ε β) : (Except.ok a >>= f) = f a := rfl

@[simp] theorem error_bind (e : ε) (f : α → Except ε β) : (Except.error e >>= f) = .error e := rfl

@[simp] theorem pure_eq_ok (a : α) : (pure a : Except ε α) = .ok a := rfl

theorem bind_eq_ok_iff {x : Except ε α} {f : α → Except ε β} {b : β} :
    (x >>= f) = .ok b ↔ ∃ a, x = .ok a ∧ f a = .ok b := by
  cases x with
  | error e => simp
  | ok a => simp

theorem bind_eq_error_iff {x : Except ε α} {f : α → Except ε β} {e : ε} :
    (x >>= f) = .error e ↔ x = .error e ∨ ∃ a, x = .ok a ∧ f a = .error e := by
  cases x with
  | error e' => simp
  | ok a => simp

/-- Two steps succeed if the first does and the second does so whatever the first gives. -/
theorem exists_bind_iff {x : Except ε α} {f : α → Except ε β} {P : Prop}
    (h : ∀ a, (∃ b, f a = .ok b) ↔ P) : (∃ b, (x >>= f) = .ok b) ↔ (∃ a, x = .ok a) ∧ P := by
  cases x with
  | error e => simp
  | ok a => simp [h a]

theorem exists_bind_pure_iff {x : Except ε α} {f : α → β} :
    (∃ b, (x >>= fun a => pure (f a)) = .ok b) ↔ ∃ a, x = .ok a := by
  have hpure : ∀ a, (∃ b, (pure (f a) : Except ε β) = .ok b) ↔ True :=
    fun a => iff_of_true ⟨f a, rfl⟩ trivial
  rw [exists_bind_iff hpure, and_true]

theorem ite_throw_eq_ok_iff {c : Prop} [Decidable c] {e : ε} {f : α → Except ε β}
    {x : Except ε β} {b : β} : (if c then throw e >>= f else x) = .ok b ↔ ¬ c ∧ x = .ok b := by
  split
  case isTrue hc =>
    constructor
    · intro h
      cases h
    · exact fun h => absurd hc h.1
  case isFalse hc => exact ⟨fun h => ⟨hc, h⟩, And.right⟩

/-- A step for each member succeeds if it does so for every one of them. -/
theorem mapM_eq_ok_iff {f : α → Except ε β} {xs : List α} {ys : List β} :
    xs.mapM f = .ok ys ↔ List.Forall₂ (fun x y => f x = .ok y) xs ys := by
  induction xs generalizing ys with
  | nil =>
    rw [List.mapM_nil, pure_eq_ok, List.forall₂_nil_left_iff, Except.ok.injEq]
    exact eq_comm
  | cons x xs ih =>
    rw [List.mapM_cons, List.forall₂_cons_left_iff]
    simp only [bind_eq_ok_iff, pure_eq_ok, Except.ok.injEq]
    constructor
    · rintro ⟨y, hy, zs, hzs, rfl⟩
      exact ⟨y, zs, hy, ih.mp hzs, rfl⟩
    · rintro ⟨y, zs, hy, hzs, rfl⟩
      exact ⟨y, hy, zs, ih.mpr hzs, rfl⟩

theorem eq_nil_iff_of_mapM {f : α → Except ε β} {xs : List α} {ys : List β}
    (h : xs.mapM f = .ok ys) : ys = [] ↔ xs = [] := by
  rw [← List.length_eq_zero_iff, ← List.length_eq_zero_iff, (mapM_eq_ok_iff.mp h).length_eq]

theorem exists_mapM_iff {f : α → Except ε β} {xs : List α} :
    (∃ ys, xs.mapM f = .ok ys) ↔ ∀ x ∈ xs, ∃ y, f x = .ok y := by
  induction xs with
  | nil => exact iff_of_true ⟨[], rfl⟩ fun x hx => nomatch hx
  | cons x xs ih =>
    rw [List.forall_mem_cons, ← ih, List.mapM_cons]
    simp only [bind_eq_ok_iff, pure_eq_ok, Except.ok.injEq]
    constructor
    · rintro ⟨-, y, hy, ys, hys, -⟩
      exact ⟨⟨y, hy⟩, ys, hys⟩
    · rintro ⟨⟨y, hy⟩, ys, hys⟩
      exact ⟨y :: ys, y, hy, ys, hys, rfl⟩

/-- A step for each member fails only as it does for one of them. -/
theorem exists_of_mapM_eq_error {f : α → Except ε β} {xs : List α} {e : ε}
    (h : xs.mapM f = .error e) : ∃ x ∈ xs, f x = .error e := by
  induction xs with
  | nil => cases h
  | cons x xs ih =>
    rw [List.mapM_cons] at h
    rcases bind_eq_error_iff.mp h with hx | ⟨y, -, h⟩
    · exact ⟨x, List.mem_cons_self .., hx⟩
    · rcases bind_eq_error_iff.mp h with hxs | ⟨ys, -, h⟩
      · obtain ⟨x', hx', he⟩ := ih hxs
        exact ⟨x', List.mem_cons_of_mem x hx', he⟩
      · cases h

theorem kept_of_foldlM {f : α → β → Except ε α} {P : List β → α → Prop}
    (hstep : ∀ seen acc b acc', P seen acc → f acc b = .ok acc' → P (seen ++ [b]) acc')
    {seen bs : List β} {acc out : α} (h : P seen acc) (hfold : bs.foldlM f acc = .ok out) :
    P (seen ++ bs) out := by
  induction bs generalizing seen acc with
  | nil =>
    cases hfold
    rwa [List.append_nil]
  | cons b bs ih =>
    obtain ⟨acc', hb, hfold⟩ := bind_eq_ok_iff.mp hfold
    rw [List.append_cons]
    exact ih (hstep seen acc b acc' h hb) hfold

theorem exists_of_foldlM_eq_error {f : α → β → Except ε α} {bs : List β} {acc : α} {e : ε}
    (h : bs.foldlM f acc = .error e) : ∃ before b after acc', bs = before ++ b :: after ∧
      before.foldlM f acc = .ok acc' ∧ f acc' b = .error e := by
  induction bs generalizing acc with
  | nil => cases h
  | cons b bs ih =>
    rcases bind_eq_error_iff.mp h with hb | ⟨acc', hb, h⟩
    · exact ⟨[], b, bs, acc, rfl, rfl, hb⟩
    · obtain ⟨before, b', after, acc'', rfl, hbefore, herror⟩ := ih h
      exact ⟨b :: before, b', after, acc'', rfl, bind_eq_ok_iff.mpr ⟨acc', hb, hbefore⟩, herror⟩

theorem mem_iff_of_mapM {f : α → Except ε β} {xs : List α} {ys : List β} (h : xs.mapM f = .ok ys)
    {y : β} : y ∈ ys ↔ ∃ x ∈ xs, f x = .ok y := by
  have hall := mapM_eq_ok_iff.mp h
  clear h
  induction hall with
  | nil => simp
  | cons hx _ ih =>
    refine (List.mem_cons.trans (or_congr eq_comm ih)).trans ?_
    simp only [List.mem_cons, exists_eq_or_imp, hx, Except.ok.injEq]

/-- A step for what there may be succeeds if there is nothing or the step does. -/
theorem optionMapM_eq_ok_iff {f : α → Except ε β} {x : Option α} {y : Option β} :
    x.mapM f = .ok y ↔ Option.Rel (fun a b => f a = .ok b) x y := by
  cases x with
  | none =>
    constructor
    · rintro ⟨⟩
      exact .none
    · rintro ⟨⟩
      rfl
  | some a =>
    simp only [Option.mapM_some, map_eq_pure_bind, bind_eq_ok_iff, pure_eq_ok, Except.ok.injEq]
    constructor
    · rintro ⟨b, hb, rfl⟩
      exact .some hb
    · rintro ⟨hb⟩
      exact ⟨_, hb, rfl⟩

theorem mapM_map_of_eq {f : α → Except ε β} {g : α → α} (h : ∀ a, f (g a) = f a) (xs : List α) :
    (xs.map g).mapM f = xs.mapM f := by
  rw [List.mapM_map]
  exact congrArg (List.mapM · xs) (funext h)

theorem mapM_congr_of_forall₂ {f : α → Except ε β} {R : α → α → Prop}
    (hR : ∀ a a', R a a' → f a = f a') {xs ys : List α} (h : List.Forall₂ R xs ys) :
    xs.mapM f = ys.mapM f := by
  induction h with
  | nil => rfl
  | cons ha _ ih => rw [List.mapM_cons, List.mapM_cons, hR _ _ ha, ih]

/-- Members for which steps give the same results, related after a change to each. -/
theorem forall₂_map_of_mapM {f : α → Except ε β} {g : α → α} {R : α → α → Prop}
    (hR : ∀ a a' b, f a = .ok b → f a' = .ok b → R (g a) (g a')) {xs xs' : List α} {ys : List β}
    (h : xs.mapM f = .ok ys) (h' : xs'.mapM f = .ok ys) :
    List.Forall₂ R (xs.map g) (xs'.map g) := by
  rw [mapM_eq_ok_iff] at h h'
  induction h generalizing xs' with
  | nil =>
    rw [List.forall₂_nil_right_iff.mp h']
    exact .nil
  | cons ha _ ih =>
    obtain ⟨a', rest', ha', hrest', rfl⟩ := List.forall₂_cons_right_iff.mp h'
    exact .cons (hR _ _ _ ha ha') (ih hrest')

/-! ### Lists side by side -/

section SideBySide

variable {R S : α → β → Prop} {xs : List α} {ys : List β}

theorem getElem?_of_forall₂ (h : List.Forall₂ R xs ys) {i : Nat} {x : α} (hx : xs[i]? = some x) :
    ∃ y, ys[i]? = some y ∧ R x y := by
  induction h generalizing i with
  | nil => cases hx
  | cons hxy _ ih =>
    cases i with
    | zero =>
      cases hx
      exact ⟨_, rfl, hxy⟩
    | succ i => exact ih hx

theorem exists_mem_of_forall₂ (h : List.Forall₂ R xs ys) {y : β} (hy : y ∈ ys) :
    ∃ x ∈ xs, R x y := by
  obtain ⟨i, hi⟩ := List.mem_iff_getElem?.mp hy
  obtain ⟨x, hx, hxy⟩ := getElem?_of_forall₂ (R := fun y x => R x y) h.flip hi
  exact ⟨x, List.mem_of_getElem? hx, hxy⟩

theorem forall₂_congr_left (h : ∀ x ∈ xs, ∀ y, R x y ↔ S x y) :
    List.Forall₂ R xs ys ↔ List.Forall₂ S xs ys := by
  induction xs generalizing ys with
  | nil => rw [List.forall₂_nil_left_iff, List.forall₂_nil_left_iff]
  | cons x xs ih =>
    obtain ⟨hx, hxs⟩ := List.forall_mem_cons.mp h
    simp only [List.forall₂_cons_left_iff, hx, ih hxs]

end SideBySide

/-! ### Reasons of failure -/

/-- That an outcome, where it is a failure, has a reason with a property. -/
def FailsWith (P : ε → Prop) (x : Except ε α) : Prop :=
  ∀ e, x = .error e → P e

section FailsWith

variable {P : ε → Prop}

theorem failsWith_ok (a : α) : FailsWith P (.ok a : Except ε α) := by
  intro e h
  cases h

theorem failsWith_error {e : ε} (h : P e) : FailsWith P (.error e : Except ε α) := by
  intro e' h'
  cases h'
  exact h

theorem FailsWith.bind {x : Except ε α} {f : α → Except ε β} (hx : FailsWith P x)
    (hf : ∀ a, x = .ok a → FailsWith P (f a)) : FailsWith P (x >>= f) := by
  cases x with
  | error e => exact failsWith_error (hx e rfl)
  | ok a => exact hf a rfl

theorem failsWith_mapM {f : α → Except ε β} {xs : List α} (h : ∀ x ∈ xs, FailsWith P (f x)) :
    FailsWith P (xs.mapM f) := by
  intro e he
  obtain ⟨x, hx, hfail⟩ := exists_of_mapM_eq_error he
  exact h x hx e hfail

theorem failsWith_foldlM {f : α → β → Except ε α} (h : ∀ acc b, FailsWith P (f acc b)) (bs : List β)
    (acc : α) : FailsWith P (bs.foldlM f acc) := by
  induction bs generalizing acc with
  | nil => exact failsWith_ok acc
  | cons b bs ih =>
    rw [List.foldlM_cons]
    exact (h acc b).bind fun acc' _ => ih acc'

end FailsWith

/-! ### Values and reasons of failure mapped -/

/-- An outcome with its value, or the reason of its failure, mapped. -/
def mapBoth (f : ε → ε) (g : α → α) : Except ε α → Except ε α
  | .error e => .error (f e)
  | .ok a => .ok (g a)

theorem mapBoth_bind {f : ε → ε} {g : α → α} {g' : β → β} {k k' : α → Except ε β}
    (h : ∀ a, k' (g a) = mapBoth f g' (k a)) (x : Except ε α) :
    mapBoth f g' (x >>= k) = mapBoth f g x >>= k' := by
  cases x with
  | error e => rfl
  | ok a => exact (h a).symm

theorem mapBoth_mapM {f : ε → ε} {g : α → α} {g' : β → β} {k : α → Except ε β}
    (h : ∀ a, k (g a) = mapBoth f g' (k a)) (xs : List α) :
    (xs.map g).mapM k = mapBoth f (List.map g') (xs.mapM k) := by
  induction xs with
  | nil => rfl
  | cons x xs ih =>
    rw [List.map_cons, List.mapM_cons, List.mapM_cons, h x, ih]
    cases k x with
    | error e => rfl
    | ok y =>
      cases xs.mapM k with
      | error e => rfl
      | ok ys => rfl

/-- Steps that give the same once their results are mapped, one after the other. -/
theorem mapBoth_bind_congr {f : ε → ε} {g : α → α} {g' : β → β} {x y : Except ε α}
    {k k' : α → Except ε β} (h : mapBoth f g x = mapBoth f g y)
    (hk : ∀ a b, g a = g b → mapBoth f g' (k a) = mapBoth f g' (k' b)) :
    mapBoth f g' (x >>= k) = mapBoth f g' (y >>= k') := by
  cases x with
  | error e =>
    cases y with
    | error e' => exact congrArg Except.error (Except.error.inj h)
    | ok b => cases h
  | ok a =>
    cases y with
    | error e' => cases h
    | ok b => exact hk a b (Except.ok.inj h)

/-- Outcomes that are the same once they are mapped succeed together or fail together. -/
theorem mapBoth_eq_iff {f : ε → ε} {g : α → α} {x y : Except ε α} :
    mapBoth f g x = mapBoth f g y ↔
      (∃ a b, x = .ok a ∧ y = .ok b ∧ g a = g b) ∨
        ∃ e e', x = .error e ∧ y = .error e' ∧ f e = f e' := by
  cases x with
  | error e =>
    cases y with
    | error e' => simp [mapBoth]
    | ok b => simp [mapBoth]
  | ok a =>
    cases y with
    | error e' => simp [mapBoth]
    | ok b => simp [mapBoth]

/-! ### Without the reasons of failures -/

@[simp] theorem toOption_ok (a : α) : (Except.ok a : Except ε α).toOption = some a := rfl

@[simp] theorem toOption_error (e : ε) : (Except.error e : Except ε α).toOption = none := rfl

theorem toOption_eq_some_iff {x : Except ε α} {a : α} : x.toOption = some a ↔ x = .ok a := by
  cases x with
  | error e => simp
  | ok b => simp

theorem toOption_bind (x : Except ε α) (f : α → Except ε β) :
    (x >>= f).toOption = x.toOption.bind fun a => (f a).toOption := by
  cases x with
  | error e => rfl
  | ok a => rfl

end FlatQuery.Outcome
