/-!
# Entries under keys

Looking a key up in a list of entries after all entries under one key have been taken out.
-/

namespace FlatQuery

variable {α β : Type} [BEq α] [LawfulBEq α]

theorem lookup_filter_self (a : α) (l : List (α × β)) : (l.filter (·.1 != a)).lookup a = none := by
  refine List.lookup_eq_none_iff.mpr ?_
  intro p hp
  have hne : (p.1 != a) = true := (List.mem_filter.mp hp).2
  rw [bne_iff_ne] at hne ⊢
  exact hne.symm

theorem lookup_filter_of_ne {a b : α} (h : b ≠ a) (l : List (α × β)) :
    (l.filter (·.1 != a)).lookup b = l.lookup b := by
  induction l with
  | nil => rfl
  | cons p l ih =>
    by_cases hp : p.1 = a
    · have hb : (b == p.1) = false := beq_false_of_ne (hp ▸ h)
      rw [List.filter_cons_of_neg (by simp [hp]), ih, List.lookup_cons, hb]
    · rw [List.filter_cons_of_pos (by simp [hp]), List.lookup_cons, List.lookup_cons, ih]

theorem lookup_cons_of_ne {a b : α} (h : b ≠ a) (v : β) (l : List (α × β)) :
    ((a, v) :: l).lookup b = l.lookup b := by
  rw [List.lookup_cons, beq_false_of_ne h]

end FlatQuery
