import MiniScheme.Error
import MiniScheme.Printer
import MiniScheme.Store.Lists
/-! # Errors about values

Errors that show a value, and the views of a value that fail with one.
-/
namespace MiniScheme

namespace Store

def notAProcedure (s : Store) (v : Value) : EvalError := ⟨.notAProcedure (s.text v), []⟩

def wrongArgument (s : Store) (procedure expected : String) (got : Value) : EvalError :=
  (EvalError.typeMismatch expected got).withNote
    ("in argument to " ++ procedure ++ ": " ++ s.text got)

def improperTail (s : Store) (tail : Value) : EvalError :=
  (EvalError.typeMismatch "list" tail).withNote ("improper list tail: " ++ s.text tail)

/-- The elements of a list one by one, then an error if it does not end properly; `none` if it
never ends. -/
def items? (s : Store) (v : Value) : Option (List (Except EvalError Value)) :=
  match s.spine v with
  | .proper items => some (items.map .ok)
  | .improper items tail => some (items.map .ok ++ [.error (s.improperTail tail)])
  | .circular => none

/-- The elements of a proper list; `none` if the list never ends. -/
def elements? (s : Store) (v : Value) : Option (Except EvalError (List Value)) :=
  match s.spine v with
  | .proper items => some (.ok items)
  | .improper _ tail => some (.error (s.improperTail tail))
  | .circular => none

end Store

namespace Value

def expectPair (v : Value) : Except EvalError CellId :=
  match v.asPair? with
  | some c => .ok c
  | none => .error (.typeMismatch "pair" v)

def expectSymbol (v : Value) : Except EvalError Symbol :=
  match v.asSymbol? with
  | some x => .ok x
  | none => .error (.typeMismatch "symbol" v)

def expectInt (v : Value) : Except EvalError Int64 :=
  match v.asInt? with
  | some n => .ok n
  | none => .error (.typeMismatch "int" v)

def expectDouble (v : Value) : Except EvalError Double :=
  match v.asDouble? with
  | some d => .ok d
  | none => .error (.typeMismatch "number" v)

def expectString (v : Value) : Except EvalError String :=
  match v.asString? with
  | some text => .ok text
  | none => .error (.typeMismatch "string" v)

end Value
end MiniScheme
