import FlatQuery.Proofs.Rows.Machines

/-!
# Products of rows

The product of lists of rows puts one row of each side by side, the first list varying slowest.  A
selection over a product can be made in parts: on either side before the rows are paired, and on
the pairs (`filter_pairs`).  Streams that agree with lists do so after being tested
(`Agrees.tested`) and after being joined (`Agrees.join`).
-/

namespace FlatQuery.Row

theorem append_nil (r : Row) : r.append ⟨[]⟩ = r :=
  congrArg Row.mk (List.append_nil r.fields)

theorem append_assoc (a b c : Row) : (a.append b).append c = a.append (b.append c) :=
  congrArg Row.mk (List.append_assoc a.fields b.fields c.fields)

theorem width_append (a b : Row) : (a.append b).width = a.width + b.width :=
  List.length_append

end FlatQuery.Row

namespace FlatQuery.Rows

/-- The rows made of one row of each list, in the order of the lists. -/
def product : List (List Row) → List Row
  | [] => [⟨[]⟩]
  | rows :: rest => rows.flatMap fun a => (product rest).map a.append

theorem product_singleton (rows : List Row) : product [rows] = rows := by
  simp only [product, List.map_cons, List.map_nil, Row.append_nil, List.flatMap_singleton']

theorem product_concat (xss : List (List Row)) (ys : List Row) :
    product (xss ++ [ys]) = (product xss).flatMap fun a => ys.map a.append := by
  induction xss with
  | nil =>
    rw [List.nil_append, product_singleton, product, List.flatMap_singleton]
    exact (List.map_id' ys).symm
  | cons rows xss ih =>
    rw [List.cons_append, product, product, ih, List.flatMap_assoc]
    congr 1
    funext a
    rw [List.map_flatMap, List.flatMap_map]
    congr 1
    funext b
    rw [List.map_map]
    exact List.map_congr_left fun c _ => (Row.append_assoc a b c).symm

/-- Rows of two products side by side are a row of the product of all lists. -/
theorem append_mem_product {xss yss : List (List Row)} {a b : Row} (ha : a ∈ product xss)
    (hb : b ∈ product yss) : a.append b ∈ product (xss ++ yss) := by
  induction xss generalizing a with
  | nil =>
    obtain rfl := List.mem_singleton.mp ha
    exact hb
  | cons rows xss ih =>
    obtain ⟨r, hr, ha⟩ := List.mem_flatMap.mp ha
    obtain ⟨a', ha', rfl⟩ := List.mem_map.mp ha
    rw [Row.append_assoc]
    exact List.mem_flatMap.mpr ⟨r, hr, List.mem_map_of_mem (ih ha')⟩

/-! ### Selections -/

/-- Pairs of selected rows are pairs that pass what the two sides and the pair are tested for. -/
theorem filter_pairs {xs ys : List Row} {A B P C : Row → Bool}
    (h : ∀ a ∈ xs, ∀ b ∈ ys, C (a.append b) = (A a && B b && P (a.append b))) :
    ((xs.filter A).flatMap fun a => ((ys.filter B).map a.append).filter P) =
      (xs.flatMap fun a => ys.map a.append).filter C := by
  induction xs with
  | nil => rfl
  | cons a xs ih =>
    have hrest := ih fun x hx => h x (List.mem_cons_of_mem _ hx)
    have hhead := h a (List.mem_cons_self ..)
    rw [List.flatMap_cons, List.filter_append, ← hrest]
    cases hA : A a with
    | true =>
      rw [List.filter_cons_of_pos hA, List.flatMap_cons]
      congr 1
      rw [List.filter_map, List.filter_map, List.filter_filter]
      congr 1
      refine List.filter_congr ?_
      intro b hb
      simp only [Function.comp, hhead b hb, hA, Bool.true_and, Bool.and_comm]
    | false =>
      have hnone : (ys.map a.append).filter C = [] := by
        refine List.filter_eq_nil_iff.mpr ?_
        intro r hr
        obtain ⟨b, hb, rfl⟩ := List.mem_map.mp hr
        simp [hhead b hb, hA]
      rw [List.filter_cons_of_neg (by simp [hA]), hnone, List.nil_append]

/-! ### Streams -/

theorem tested_agrees {on : Option Term} {row : Row} {p : Row → Bool}
    (h : Term.passes on row = .ok true ↔ p row = true) :
    (tested on row).Agrees ([row].filter p) := by
  unfold tested
  split
  · exact Yield.agrees_fail _ _
  · rename_i hp
    rw [List.filter_cons_of_pos (h.mp hp)]
    exact Yield.agrees_ofList _
  · rename_i hp
    have hn : ¬p row = true := by
      intro ht
      rw [h.mpr ht] at hp
      cases hp
    rw [List.filter_cons_of_neg hn]
    exact Yield.agrees_ofList []

theorem tested_error {on : Option Term} {row : Row} :
    (tested on row).error = none ↔ ∃ b, Term.passes on row = .ok b := by
  unfold tested
  split
  · rename_i e he
    simp [Yield.fail, he]
  · rename_i hp
    simp [Yield.ofList, hp]
  · rename_i hp
    simp [Yield.empty, hp]

namespace Yield

variable {y z : Yield} {xs ys : List Row} {on : Option Term} {p : Row → Bool}

theorem Agrees.tested (h : y.Agrees xs) (hp : ∀ r ∈ xs, Term.passes on r = .ok true ↔ p r = true) :
    (y.bind (tested on)).Agrees (xs.filter p) := by
  have hbind := h.bind fun r hr => tested_agrees (hp r hr)
  have hflat : (xs.flatMap fun r => [r].filter p) = xs.filter p := by
    rw [← List.filter_flatMap, List.flatMap_singleton']
  exact hflat ▸ hbind

theorem Agrees.join (hy : y.Agrees xs) (hz : z.Agrees ys)
    (hp : ∀ a ∈ xs, ∀ b ∈ ys, Term.passes on (a.append b) = .ok true ↔ p (a.append b) = true) :
    (y.bind fun a => z.bind fun b => Rows.tested on (a.append b)).Agrees
      (xs.flatMap fun a => (ys.map a.append).filter p) := by
  refine hy.bind ?_
  intro a ha
  have hbind := hz.bind fun b hb => tested_agrees (hp a ha b hb)
  have hflat : (ys.flatMap fun b => [a.append b].filter p) = (ys.map a.append).filter p := by
    rw [← List.filter_flatMap, List.map_eq_flatMap]
  exact hflat ▸ hbind

end Yield

end FlatQuery.Rows
