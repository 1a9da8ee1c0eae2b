import FlatQuery.Text.CaseTable

/-!
Lower case for all of Unicode.  Each capital becomes its partner; two characters need more than
that: the dotted capital I becomes two characters, and a capital sigma at the end of a word becomes
the final sigma.
-/

namespace FlatQuery.Text

/-- The partner of a capital; any other character itself. -/
def lowerChar (c : Char) : Char :=
  match caseRuns.find? (·.covers c.toNat) with
  | some run => Char.ofNat (run.partner c.toNat)
  | none => c

/-- Whether the first character that is not case-ignorable has case. -/
def startsCased (cs : List Char) : Bool :=
  match cs.dropWhile (fun c => caseIgnorableRanges.holds c.toNat) with
  | [] => false
  | c :: _ => casedRanges.holds c.toNat

/-- A sigma is final after a cased character and not before one. -/
def isFinalSigma (before after : List Char) : Bool :=
  startsCased before && !startsCased after

/-- The lower case of a character, given what stands before it (nearest first) and after it. -/
def lowerIn (before : List Char) (c : Char) (after : List Char) : List Char :=
  if c = 'İ' then ['i', '\u0307']
  else if c = 'Σ' then [if isFinalSigma before after then 'ς' else 'σ']
  else [lowerChar c]

/-- The lower case of the characters after `before`, which is held nearest first. -/
def lowerAfter (before : List Char) : List Char → List Char
  | [] => []
  | c :: rest => lowerIn before c rest ++ lowerAfter (c :: before) rest

def lowercase (s : String) : String :=
  String.ofList (lowerAfter [] s.toList)

end FlatQuery.Text
