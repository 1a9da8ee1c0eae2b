import FlatQuery.Text.Pieces
import Mathlib.Data.List.TakeDrop
import Mathlib.Data.List.TakeWhile

/-!
# Texts cut and put together

Put together, texts stand with the separator between neighbours (`toList_joined`).  So a text is its
pieces put together (`joined_piecesAt`), and texts that do not hold the separator are the pieces of
what they are put together to (`piecesAt_joined`), as no piece holds it (`not_mem_of_mem_piecesAt`).
A text that is cut once is cut at the first separator (`cutAt_eq_some_iff`).
-/

namespace FlatQuery.Text

variable {c : Char} {texts : List String}

/-- The members of a piece are members of the list, at which it is not cut. -/
theorem of_mem_splitOnP {α : Type} {p : α → Bool} {l piece : List α} (h : piece ∈ l.splitOnP p)
    {a : α} (ha : a ∈ piece) : a ∈ l ∧ p a = false := by
  induction l generalizing piece with
  | nil =>
    rw [List.splitOnP_nil, List.mem_singleton] at h
    subst h
    cases ha
  | cons b rest ih =>
    rw [List.splitOnP_cons_eq_if_modifyHead] at h
    obtain ⟨first, pieces, hrest⟩ := List.exists_cons_of_ne_nil (List.splitOnP_ne_nil p rest)
    rw [hrest] at h ih
    split at h
    · rcases List.mem_cons.mp h with rfl | h
      · cases ha
      · exact (ih h ha).imp_left (List.mem_cons_of_mem b)
    · next hb =>
      rw [List.modifyHead_cons] at h
      rcases List.mem_cons.mp h with rfl | h
      · -- the member before the first piece belongs to it
        rcases List.mem_cons.mp ha with rfl | ha
        · exact ⟨List.mem_cons_self .., eq_false_of_ne_true hb⟩
        · exact (ih (List.mem_cons_self ..) ha).imp_left (List.mem_cons_of_mem b)
      · exact (ih (List.mem_cons_of_mem first h) ha).imp_left (List.mem_cons_of_mem b)

theorem exists_splitOn_eq {α : Type} [BEq α] (a : α) (l : List α) :
    ∃ front last, l.splitOn a = front ++ [last] :=
  ⟨_, _, (List.dropLast_concat_getLast (List.splitOn_ne_nil a l)).symm⟩

theorem mem_of_mem_piecesAt {s piece : String} (h : piece ∈ piecesAt c s) {x : Char}
    (hx : x ∈ piece.toList) : x ∈ s.toList := by
  obtain ⟨cs, hcs, rfl⟩ := List.mem_map.mp h
  rw [List.splitOn_eq_splitOnP] at hcs
  rw [String.toList_ofList] at hx
  exact (of_mem_splitOnP hcs hx).1

theorem piecesAt_ne_nil (c : Char) (s : String) : piecesAt c s ≠ [] := by
  rw [piecesAt, Ne, List.map_eq_nil_iff]
  exact List.splitOn_ne_nil c s.toList

theorem not_mem_of_mem_piecesAt {s piece : String} (h : piece ∈ piecesAt c s) : c ∉ piece.toList := by
  obtain ⟨cs, hcs, rfl⟩ := List.mem_map.mp h
  rw [List.splitOn_eq_splitOnP] at hcs
  intro hc
  rw [String.toList_ofList] at hc
  simpa using (of_mem_splitOnP hcs hc).2

theorem toList_joined (sep : String) (texts : List String) :
    (joined sep texts).toList = sep.toList.intercalate (texts.map String.toList) := by
  induction texts with
  | nil => rfl
  | cons s rest ih =>
    cases rest with
    | nil => rw [joined, List.map_singleton, List.intercalate_singleton]
    | cons t rest =>
      rw [List.map_cons, List.map_cons, List.intercalate_cons_cons, ← List.map_cons, ← ih, joined,
        String.toList_append, String.toList_append]
      exact nofun

theorem mem_toList_joined {sep : String} {x : Char} (h : x ∈ (joined sep texts).toList) :
    x ∈ sep.toList ∨ ∃ s ∈ texts, x ∈ s.toList := by
  induction texts with
  | nil => cases h
  | cons s rest ih =>
    cases rest with
    | nil => exact .inr ⟨s, List.mem_cons_self .., h⟩
    | cons t rest =>
      have hcons : joined sep (s :: t :: rest) = s ++ sep ++ joined sep (t :: rest) := rfl
      rw [hcons, String.toList_append, String.toList_append, List.mem_append, List.mem_append] at h
      rcases h with (h | h) | h
      · exact .inr ⟨s, List.mem_cons_self .., h⟩
      · exact .inl h
      · rcases ih h with h | ⟨u, hu, h⟩
        · exact .inl h
        · exact .inr ⟨u, List.mem_cons_of_mem s hu, h⟩

theorem joined_concat_append (sep : String) (front : List String) (last more : String) :
    joined sep (front ++ [last ++ more]) = joined sep (front ++ [last]) ++ more := by
  induction front with
  | nil => rfl
  | cons s rest ih =>
    have hcons : ∀ t : String, joined sep (s :: (rest ++ [t])) = s ++ sep ++ joined sep (rest ++ [t]) := by
      intro t
      refine joined.eq_3 sep s _ ?_
      exact List.append_ne_nil_of_right_ne_nil rest (List.cons_ne_nil t [])
    rw [List.cons_append, List.cons_append, hcons, hcons, ih]
    exact String.append_assoc.symm

theorem map_toList_piecesAt (c : Char) (s : String) :
    (piecesAt c s).map String.toList = s.toList.splitOn c := by
  rw [piecesAt, List.map_map]
  exact List.map_id'' (fun cs => String.toList_ofList) _

theorem joined_piecesAt (c : Char) (s : String) :
    joined (String.ofList [c]) (piecesAt c s) = s := by
  rw [← String.toList_inj, toList_joined, String.toList_ofList, map_toList_piecesAt,
    List.intercalate_splitOn]

theorem piecesAt_joined (hne : texts ≠ []) (h : ∀ s ∈ texts, c ∉ s.toList) :
    piecesAt c (joined (String.ofList [c]) texts) = texts := by
  have hpieces : ∀ cs ∈ texts.map String.toList, c ∉ cs := by
    intro cs hcs
    obtain ⟨s, hs, rfl⟩ := List.mem_map.mp hcs
    exact h s hs
  rw [piecesAt, toList_joined, String.toList_ofList,
    List.splitOn_intercalate c hpieces (by simpa using hne), List.map_map]
  exact List.map_id'' (fun s => String.ofList_toList) _

/-- What is added behind a text, without the separator, is added to its last piece. -/
theorem piecesAt_append {s last more : String} {front : List String}
    (h : piecesAt c s = front ++ [last]) (hmore : c ∉ more.toList) :
    piecesAt c (s ++ more) = front ++ [last ++ more] := by
  have hpieces : ∀ piece ∈ front ++ [last], c ∉ piece.toList := by
    rw [← h]
    exact fun piece hpiece => not_mem_of_mem_piecesAt hpiece
  have hjoined := joined_concat_append (String.ofList [c]) front last more
  rw [← h, joined_piecesAt] at hjoined
  rw [← hjoined]
  refine piecesAt_joined (by simp) fun piece hpiece => ?_
  rcases List.mem_append.mp hpiece with hpiece | hpiece
  · exact hpieces piece (List.mem_append_left _ hpiece)
  · obtain rfl := List.mem_singleton.mp hpiece
    rw [String.toList_append, List.mem_append, not_or]
    exact ⟨hpieces last (by simp), hmore⟩

theorem joined_append_cons (sep more s : String) (rest : List String) :
    joined sep ((more ++ s) :: rest) = more ++ joined sep (s :: rest) := by
  cases rest with
  | nil => rfl
  | cons t rest => simp only [joined, String.append_assoc]

/-- The end of a separator can be read as the start of the next text. -/
theorem joined_append_sep (sep pad s : String) (rest : List String) :
    joined (sep ++ pad) (s :: rest) = joined sep (s :: rest.map (pad ++ ·)) := by
  induction rest generalizing s with
  | nil => rfl
  | cons t rest ih =>
    calc joined (sep ++ pad) (s :: t :: rest)
      _ = s ++ (sep ++ pad) ++ joined (sep ++ pad) (t :: rest) := rfl
      _ = s ++ sep ++ (pad ++ joined sep (t :: rest.map (pad ++ ·))) := by
        rw [ih, ← String.append_assoc, String.append_assoc]
      _ = s ++ sep ++ joined sep ((pad ++ t) :: rest.map (pad ++ ·)) := by rw [joined_append_cons]
      _ = joined sep (s :: (t :: rest).map (pad ++ ·)) := rfl

/-! ### The first cut -/

theorem cutAt_eq_some_iff {s front back : String} : cutAt? c s = some (front, back) ↔
    s.toList = front.toList ++ c :: back.toList ∧ c ∉ front.toList := by
  rw [cutAt?, List.span_eq_takeWhile_dropWhile]
  constructor
  · intro h
    have hparts := List.takeWhile_append_dropWhile (p := (· != c)) (l := s.toList)
    cases hback : s.toList.dropWhile (· != c) with
    | nil =>
      rw [hback] at h
      cases h
    | cons d rest =>
      rw [hback] at h hparts
      have hhead := List.head?_dropWhile_not (· != c) s.toList
      rw [hback] at hhead
      obtain rfl : d = c := by simpa using hhead
      obtain ⟨rfl, rfl⟩ := Prod.mk.inj (Option.some.inj h)
      rw [String.toList_ofList, String.toList_ofList]
      refine ⟨hparts.symm, ?_⟩
      intro hmem
      have hdiffers : (d != d) = true := List.mem_takeWhile_imp (p := (· != d)) hmem
      exact absurd rfl (bne_iff_ne.mp hdiffers)
  · rintro ⟨hs, hfront⟩
    have hne : ∀ x ∈ front.toList, (x != c) = true := by
      intro x hx
      exact bne_iff_ne.mpr fun hxc => hfront (hxc ▸ hx)
    rw [hs, List.takeWhile_append_of_pos hne, List.dropWhile_append_of_pos hne]
    simp

theorem cutAt_eq_none {s : String} (h : c ∉ s.toList) : cutAt? c s = none := by
  cases hcut : cutAt? c s with
  | none => rfl
  | some parts =>
    have hs := (cutAt_eq_some_iff.mp hcut).1
    exact absurd (hs ▸ List.mem_append_right _ (List.mem_cons_self ..)) h

end FlatQuery.Text
