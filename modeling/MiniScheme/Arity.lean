/-! # Argument counts -/
namespace MiniScheme

/-- The argument counts a procedure accepts. -/
inductive Arity where
  | exact (n : Nat)
  | atLeast (n : Nat)
  /-- Both ends count. -/
  | range (lo hi : Nat)
deriving DecidableEq, Repr, Inhabited

namespace Arity

def accepts : Arity → Nat → Bool
  | exact n, count => count == n
  | atLeast n, count => n ≤ count
  | range lo hi, count => lo ≤ count && count ≤ hi

/-- `argument` or `arguments`, as goes with `n`. -/
def noun (n : Nat) : String := if n = 1 then "argument" else "arguments"

def text : Arity → String
  | exact n => toString n ++ " " ++ noun n
  | atLeast n => "at least " ++ toString n ++ " " ++ noun n
  | range lo hi => toString lo ++ " to " ++ toString hi ++ " arguments"

def describe : Arity → String
  | exact n => "Exact(" ++ toString n ++ ")"
  | atLeast n => "AtLeast(" ++ toString n ++ ")"
  | range lo hi => "Range(" ++ toString lo ++ ", " ++ toString hi ++ ")"

end Arity
end MiniScheme
