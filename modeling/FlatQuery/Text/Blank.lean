import FlatQuery.Text.Ranges

/-!
Blank characters and what is cut at them: trimming, words and lines.  The blank characters are
those of the Unicode property `White_Space`.
-/

namespace FlatQuery.Text

/-- The characters of the property `White_Space`. -/
def blankRanges : Ranges := [
  (0x9, 0xD), (0x20, 0x20), (0x85, 0x85), (0xA0, 0xA0), (0x1680, 0x1680), (0x2000, 0x200A),
  (0x2028, 0x2029), (0x202F, 0x202F), (0x205F, 0x205F), (0x3000, 0x3000)]

def isBlank (c : Char) : Bool :=
  blankRanges.holds c.toNat

/-! ### Trimming -/

/-- The list without the members at its end that satisfy `p`. -/
def dropEndWhile {α : Type} (p : α → Bool) (l : List α) : List α :=
  l.foldr (fun a rest => if rest.isEmpty && p a then [] else a :: rest) []

/-- The characters without the blank ones at either end. -/
def trimChars (cs : List Char) : List Char :=
  dropEndWhile isBlank (cs.dropWhile isBlank)

def trim (s : String) : String :=
  String.ofList (trimChars s.toList)

def isBlankText (s : String) : Bool :=
  s.toList.all isBlank

/-! ### Words and lines -/

/-- The maximal runs of characters that are not blank, in order. -/
def words (s : String) : List String :=
  ((s.toList.splitOnP isBlank).filter (!·.isEmpty)).map String.ofList

/-- The pieces of a list that end with `sep`; a last piece without `sep` counts if it is not
empty. -/
def segments {α : Type} [BEq α] (sep : α) (l : List α) : List (List α) :=
  match (l.splitOn sep).reverse with
  | [] :: front => front.reverse
  | pieces => pieces.reverse

/-- A line without the carriage return that belongs to its end. -/
def dropReturn (line : List Char) : List Char :=
  match line.reverse with
  | '\r' :: front => front.reverse
  | _ => line

/-- The lines of a text: cut after each line feed, a carriage return before it dropped. -/
def lines (s : String) : List String :=
  let pieces := s.toList.splitOn '\n'
  let ended := pieces.dropLast.map dropReturn
  let last := pieces.getLast?.getD []
  (if last.isEmpty then ended else ended ++ [last]).map String.ofList

end FlatQuery.Text
