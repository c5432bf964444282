import MiniScheme.Arity
import MiniScheme.Double
import MiniScheme.Symbol
/-! # Values

Atoms are held in full; pairs and closures are references into a store, native procedures and
special forms references into a library, each with the name it prints under.
-/
namespace MiniScheme

structure CellId where
  index : Nat
deriving DecidableEq, Repr, Inhabited, Hashable

structure FrameId where
  index : Nat
deriving DecidableEq, Repr, Inhabited

structure ClosureId where
  index : Nat
deriving DecidableEq, Repr, Inhabited

/-- A native procedure, by its place in the library. -/
structure Builtin where
  id : Nat
  name : String
  arity : Arity
deriving DecidableEq, Repr, Inhabited

/-- A special form, by its place in the library. -/
structure SpecialForm where
  id : Nat
  name : String
deriving DecidableEq, Repr, Inhabited

inductive Value where
  /-- The empty list. -/
  | nil
  | bool (b : Bool)
  | int (n : Int64)
  | float (d : Double)
  | str (text : String)
  | symbol (symbol : Symbol)
  | pair (cell : CellId)
  | builtin (procedure : Builtin)
  | form (form : SpecialForm)
  | closure (closure : ClosureId)
  /-- Result of what is evaluated for its effect. -/
  | unspecified
deriving DecidableEq, Repr, Inhabited

namespace Value

/-- Only `#f` is false. -/
def isTrue : Value → Bool
  | bool false => false
  | _ => true

def isNull : Value → Bool
  | nil => true
  | _ => false

theorem isNull_eq_true_iff {v : Value} : v.isNull = true ↔ v = nil := by
  cases v <;> simp [isNull]

def isPair : Value → Bool
  | pair _ => true
  | _ => false

theorem isPair_eq_true_iff {v : Value} : v.isPair = true ↔ ∃ c, v = pair c := by
  cases v <;> simp [isPair]

theorem isPair_eq_false_iff {v : Value} : v.isPair = false ↔ ∀ c, v ≠ pair c := by
  cases v <;> simp [isPair]

def isSymbol : Value → Bool
  | symbol _ => true
  | _ => false

def isNumber : Value → Bool
  | int _ => true
  | float _ => true
  | _ => false

def isProcedure : Value → Bool
  | builtin _ => true
  | closure _ => true
  | _ => false

def isUnspecified : Value → Bool
  | unspecified => true
  | _ => false

def typeName : Value → String
  | nil => "null"
  | bool _ => "bool"
  | int _ => "int"
  | float _ => "float"
  | str _ => "string"
  | symbol _ => "symbol"
  | pair _ => "pair"
  | builtin _ => "procedure"
  | closure _ => "procedure"
  | form _ => "syntax"
  | unspecified => "void"

def asPair? : Value → Option CellId
  | pair c => some c
  | _ => none

def asSymbol? : Value → Option Symbol
  | symbol s => some s
  | _ => none

def asInt? : Value → Option Int64
  | int n => some n
  | _ => none

/-- A number as a double; integers are promoted. -/
def asDouble? : Value → Option Double
  | int n => some (Double.ofInt n.toInt)
  | float d => some d
  | _ => none

def asString? : Value → Option String
  | str s => some s
  | _ => none

def asBool? : Value → Option Bool
  | bool b => some b
  | _ => none

/-- Identity of pairs, symbols and procedures; equality of all other atoms, doubles by their bit
pattern. -/
def same : Value → Value → Bool
  | nil, nil => true
  | unspecified, unspecified => true
  | bool a, bool b => a == b
  | int a, int b => a == b
  | float a, float b => a.bits == b.bits
  | str a, str b => a == b
  | symbol a, symbol b => a.same b
  | pair a, pair b => a.index == b.index
  | builtin a, builtin b => a.id == b.id
  | form a, form b => a.id == b.id
  | closure a, closure b => a.index == b.index
  | _, _ => false

@[simp] theorem same_self (v : Value) : v.same v = true := by cases v <;> simp [same]

theorem eq_of_same_of_isPair {v w : Value} (hpair : v.isPair = true) (hsame : v.same w = true) :
    v = w := by
  obtain ⟨c, rfl⟩ := isPair_eq_true_iff.mp hpair
  cases w with
  | pair d => exact congrArg (fun i => pair ⟨i⟩) (beq_iff_eq.mp hsame)
  | _ => simp [same] at hsame

end Value
end MiniScheme
