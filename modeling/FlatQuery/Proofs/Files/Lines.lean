import FlatQuery.Files.Content
import FlatQuery.Proofs.Text.ByteOrder
import FlatQuery.Proofs.Text.Pieces

/-!
# The lines of a content

A content that is a text in UTF-8 has the same lines whether it is held as a text or as the bytes
(`Content.lines_of_text?`), because the byte of a line feed occurs in no other character
(`feed_mem_encode_iff`).
-/

namespace FlatQuery

namespace Text

/-! ### Bytes and line feeds -/

theorem feed_mem_encode_iff {c : Char} : 10 ∈ String.utf8EncodeChar c ↔ c = '\n' := by
  constructor
  · intro h
    have hmax := toNat_val_lt c
    have hten : (10 : UInt8) = UInt8.ofNat 10 := rfl
    have hval : c.val.toNat = 10 := by
      unfold String.utf8EncodeChar at h
      dsimp only at h
      rw [hten] at h
      generalize c.val.toNat = v at *
      split_ifs at h
      all_goals
        simp (disch := omega) only [List.mem_cons, List.not_mem_nil, or_false, ofNat_eq_iff] at h
        omega
    exact Char.ext (UInt32.toNat_inj.mp hval)
  · rintro rfl
    decide

/-- What comes before the first place of a cut goes to the first piece. -/
theorem splitOn_append_of_not_mem {α : Type} [BEq α] [LawfulBEq α] {a : α} {front : List α}
    (h : a ∉ front) (back : List α) :
    (front ++ back).splitOn a = (back.splitOn a).modifyHead (front ++ ·) := by
  induction front with
  | nil =>
    rw [List.nil_append]
    cases back.splitOn a with
    | nil => rfl
    | cons piece pieces => rfl
  | cons b front ih =>
    obtain ⟨hb, hfront⟩ := not_or.mp (mt List.mem_cons.mpr h)
    have hne : ¬ (b == a) = true := fun heq => hb (beq_iff_eq.mp heq).symm
    rw [List.cons_append, List.splitOn_cons_eq_if_modifyHead, if_neg hne, ih hfront,
      List.modifyHead_modifyHead]
    rfl

theorem splitOn_encode (cs : List Char) :
    (cs.flatMap String.utf8EncodeChar).splitOn 10 =
      (cs.splitOn '\n').map (·.flatMap String.utf8EncodeChar) := by
  induction cs with
  | nil => rfl
  | cons c cs ih =>
    rw [List.flatMap_cons]
    by_cases hc : c = '\n'
    · subst hc
      have hbytes : String.utf8EncodeChar '\n' = [10] := by decide
      rw [hbytes, List.singleton_append, List.splitOn_cons_eq_if_modifyHead,
        List.splitOn_cons_eq_if_modifyHead, if_pos (beq_self_eq_true _), if_pos (beq_self_eq_true _),
        ih]
      rfl
    · rw [splitOn_append_of_not_mem (mt feed_mem_encode_iff.mp hc), ih,
        List.splitOn_cons_eq_if_modifyHead, if_neg (by simpa using hc)]
      cases cs.splitOn '\n' with
      | nil => rfl
      | cons piece pieces => rfl

/-- The segments of a list are its pieces, but for a last one that is empty. -/
theorem segments_eq {α : Type} [BEq α] (sep : α) (l : List α) : ∃ front last,
    l.splitOn sep = front ++ [last] ∧ segments sep l = front ++ if last = [] then [] else [last] := by
  obtain ⟨front, last, hpieces⟩ := exists_splitOn_eq sep l
  refine ⟨front, last, hpieces, ?_⟩
  rw [segments, hpieces, List.reverse_append, List.reverse_singleton, List.singleton_append]
  cases last with
  | nil => simp
  | cons a last => simp

theorem segments_encode (cs : List Char) :
    segments 10 (cs.flatMap String.utf8EncodeChar) =
      (segments '\n' cs).map (·.flatMap String.utf8EncodeChar) := by
  obtain ⟨front, last, hpieces, hsegments⟩ := segments_eq '\n' cs
  obtain ⟨front', last', hpieces', hsegments'⟩ :=
    segments_eq (10 : UInt8) (cs.flatMap String.utf8EncodeChar)
  rw [splitOn_encode, hpieces, List.map_append, List.map_singleton] at hpieces'
  obtain ⟨rfl, hlast⟩ := List.append_inj' hpieces' rfl
  obtain rfl := (List.cons.inj hlast).1
  have hempty : last.flatMap String.utf8EncodeChar = [] ↔ last = [] := by
    cases last with
    | nil => simp
    | cons c last => simp [String.utf8EncodeChar_ne_nil]
  rw [hsegments, hsegments', List.map_append]
  by_cases hnil : last = []
  · rw [if_pos hnil, if_pos (hempty.mpr hnil), List.map_nil]
  · rw [if_neg hnil, if_neg (mt hempty.mp hnil), List.map_singleton]

end Text

namespace Content

/-! ### Texts and bytes -/

theorem fromUTF8?_bytes (s : String) : String.fromUTF8? ⟨(text s).bytes.toArray⟩ = some s := by
  have hbytes : (⟨(text s).bytes.toArray⟩ : ByteArray) = s.toByteArray := by
    simp only [bytes, String.toUTF8_eq_toByteArray, Array.toArray_toList]
  rw [hbytes]
  exact dif_pos s.isValidUTF8

theorem eq_bytes_of_fromUTF8? {bs : List UInt8} {s : String}
    (h : String.fromUTF8? ⟨bs.toArray⟩ = some s) : bs = (text s).bytes := by
  unfold String.fromUTF8? at h
  split at h
  · next hvalid =>
    obtain rfl := Option.some.inj h
    rfl
  · cases h

/-- The lines of a content that is a text are those of the text. -/
theorem lines_of_text? {c : Content} {s : String} (h : c.text? = some s) :
    c.lines = (Text.segments '\n' s.toList).map fun cs => some (String.ofList cs) := by
  cases c with
  | text t =>
    obtain rfl := Option.some.inj h
    rfl
  | raw bs =>
    have hbytes : bs = s.toList.flatMap String.utf8EncodeChar :=
      (eq_bytes_of_fromUTF8? h).trans (Text.bytesOf_eq s)
    rw [lines, hbytes, Text.segments_encode, List.map_map]
    refine List.map_congr_left fun cs _ => ?_
    have hline : (text (String.ofList cs)).bytes = cs.flatMap String.utf8EncodeChar := by
      rw [← String.toList_ofList (l := cs), ← Text.bytesOf_eq, String.toList_ofList]
      rfl
    rw [Function.comp_apply, ← hline]
    exact fromUTF8?_bytes _

theorem lines_drop_zero (c : Content) : (c.drop 0).lines = c.lines := by
  rw [drop]
  split
  · next hsize =>
    cases c with
    | text s =>
      have hempty : s = "" := String.utf8ByteSize_eq_zero_iff.mp (Nat.le_zero.mp hsize)
      rw [hempty]
    | raw bs =>
      have hempty : bs = [] := List.length_eq_zero_iff.mp (Nat.le_zero.mp hsize)
      rw [hempty]
      rfl
  · rw [if_pos rfl]

end Content

end FlatQuery
