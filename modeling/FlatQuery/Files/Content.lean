import FlatQuery.Text.Blank

/-!
What a file holds, and the lines in it.
-/

namespace FlatQuery

/-- The content of a file: a text, or bytes that do not make one. -/
inductive Content where
  | text (s : String)
  | raw (bytes : List UInt8)
  deriving DecidableEq, Repr, Inhabited

namespace Content

/-- The text that the bytes encode in UTF-8, or the bytes themselves. -/
def ofBytes (bytes : List UInt8) : Content :=
  match String.fromUTF8? ⟨bytes.toArray⟩ with
  | some s => text s
  | none => raw bytes

def bytes : Content → List UInt8
  | text s => s.toUTF8.data.toList
  | raw bs => bs

def size : Content → Nat
  | text s => s.utf8ByteSize
  | raw bs => bs.length

def text? : Content → Option String
  | text s => some s
  | raw bs => String.fromUTF8? ⟨bs.toArray⟩

def drop (n : Nat) (c : Content) : Content :=
  if c.size ≤ n then text ""
  else if n = 0 then c
  else ofBytes (c.bytes.drop n)

/-- The lines, without the line feeds that end them; `none` stands for a line that is not a
text. -/
def lines : Content → List (Option String)
  | text s => (Text.segments '\n' s.toList).map fun cs => some (String.ofList cs)
  | raw bs => (Text.segments 10 bs).map fun line => String.fromUTF8? ⟨line.toArray⟩

end Content

end FlatQuery
