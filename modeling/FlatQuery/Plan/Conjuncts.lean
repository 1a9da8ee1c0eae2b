import FlatQuery.Query.Expr

/-!
The conjuncts of a WHERE condition, and who takes them.  Each conjunct is taken once, by the first
who asks for what it mentions.
-/

namespace FlatQuery

/-- The conjuncts that have not been taken yet, in the order of the condition. -/
structure Conjuncts where
  pending : List Expr
  deriving Inhabited

namespace Conjuncts

def ofCondition : Option Expr → Conjuncts
  | none => ⟨[]⟩
  | some e => ⟨e.conjuncts⟩

/-- Takes the conjuncts that satisfy `p`, and leaves the others. -/
def take (p : Expr → Bool) (c : Conjuncts) : List Expr × Conjuncts :=
  (c.pending.filter p, ⟨c.pending.filter (!p ·)⟩)

/-- Whether an expression mentions no other table than one. -/
def mentionsOnly (table : String) (e : Expr) : Bool :=
  e.tables.all (· == table)

/-- Whether an expression mentions one table, and otherwise only those of a list. -/
def connects (left : List String) (right : String) (e : Expr) : Bool :=
  e.tables.contains right && e.tables.all fun t => t == right || left.contains t

/-- Takes the conjuncts that mention no other table than one. -/
def takeTable (table : String) (c : Conjuncts) : List Expr × Conjuncts :=
  c.take (mentionsOnly (Name.canonical table))

/-- Takes the conjuncts that mention the right table, and otherwise only tables on the left.  A
conjunct about a table that comes later is left. -/
def takeJoin (left : List String) (right : String) (c : Conjuncts) : List Expr × Conjuncts :=
  c.take (connects (left.map Name.canonical) (Name.canonical right))

def takeAll (c : Conjuncts) : List Expr × Conjuncts :=
  c.take fun _ => true

end Conjuncts

end FlatQuery
