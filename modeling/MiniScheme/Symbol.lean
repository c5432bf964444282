/-! # Symbols

A symbol is a name together with the identity its symbol table gave it. Comparison looks at the
identity alone; a table hands out one identity per name, so the two agree on symbols of one table.
-/
namespace MiniScheme

structure Symbol where
  /-- Identity within the table that made the symbol. -/
  id : Nat
  name : String
deriving DecidableEq, Repr, Inhabited

namespace Symbol

/-- Whether two symbols are the same object. -/
def same (a b : Symbol) : Bool := a.id == b.id

@[simp] theorem same_self (a : Symbol) : a.same a = true := by simp [same]

theorem same_iff (a b : Symbol) : a.same b = true ↔ a.id = b.id := by simp [same]

end Symbol
end MiniScheme
