import MiniScheme.SymbolTable
import MiniScheme.Value
/-! # Evaluation errors

An error has a cause, which fixes its message, and notes that add context. Only a full symbol table
is fatal; after any other error evaluation may go on.
-/
namespace MiniScheme

/-- What went wrong. -/
inductive Cause where
  /-- The source text is malformed. -/
  | parse (message : String)
  | unboundVariable (name : String)
  | notAProcedure (expr : String)
  | arity (name : String) (expected : Arity) (got : Nat)
  | stackOverflow (limit : Nat)
  | typeMismatch (expected got : String)
  | divisionByZero
  | integerOverflow (operation : String)
  | badSyntax (form reason : String)
  | symbolTableFull (cause : SymbolTableError)
  /-- An invariant of the evaluator is broken. -/
  | internal (message : String)
  /-- Raised by a native procedure in its own words. -/
  | custom (message : String)
deriving DecidableEq, Repr

def Cause.message : Cause → String
  | parse message => "read error: " ++ message
  | unboundVariable name => "unbound variable: " ++ name
  | notAProcedure expr =>
    "application: not a procedure [expected: procedure that can be applied to arguments, given: " ++
      expr ++ "]"
  | arity name expected got =>
    (if name.isEmpty then "" else name ++ ": ") ++
      "arity mismatch: expected " ++ expected.text ++ ", got " ++ toString got
  | stackOverflow limit => "maximum recursion depth exceeded (limit: " ++ toString limit ++ ")"
  | typeMismatch expected got => "type mismatch: expected " ++ expected ++ ", got " ++ got
  | divisionByZero => "division by zero"
  | integerOverflow operation => "integer overflow in " ++ operation
  | badSyntax form reason => "bad syntax in " ++ form ++ ": " ++ reason
  | symbolTableFull cause => cause.message
  | internal message => "internal error: " ++ message
  | custom message => message

structure EvalError where
  cause : Cause
  /-- Context, in the order it was added. -/
  notes : List String := []
deriving DecidableEq, Repr

namespace EvalError

def message (e : EvalError) : String := e.cause.message

def withNote (e : EvalError) (note : String) : EvalError := { e with notes := e.notes ++ [note] }

/-- Whether evaluation must not go on after the error. -/
def isFatal (e : EvalError) : Bool :=
  match e.cause with
  | .symbolTableFull _ => true
  | _ => false

/-- Message and notes, one line each. -/
def text (e : EvalError) : String :=
  e.notes.foldl (fun out note => out ++ "\n  note: " ++ note) e.message

def parse (message : String) : EvalError := ⟨.parse message, []⟩

def unboundVariable (name : String) : EvalError := ⟨.unboundVariable name, []⟩

def arity (name : String) (expected : Arity) (got : Nat) : EvalError :=
  ⟨.arity name expected got, []⟩

def stackOverflow (limit : Nat) : EvalError := ⟨.stackOverflow limit, []⟩

def typeMismatch (expected : String) (got : Value) : EvalError :=
  ⟨.typeMismatch expected got.typeName, []⟩

def divisionByZero : EvalError := ⟨.divisionByZero, []⟩

def integerOverflow (operation : String) : EvalError := ⟨.integerOverflow operation, []⟩

def badSyntax (form reason : String) : EvalError := ⟨.badSyntax form reason, []⟩

def ofSymbolTable (cause : SymbolTableError) : EvalError := ⟨.symbolTableFull cause, []⟩

def internal (message : String) : EvalError := ⟨.internal message, []⟩

/-- More values were taken from the call stack than it holds. -/
def callStackUnderflow (requested available : Nat) : EvalError :=
  internal ("call stack underflow: " ++ toString requested ++ " values requested, " ++
    toString available ++ " available")

def custom (message : String) : EvalError := ⟨.custom message, []⟩

end EvalError

/-- Refuse an argument count that `arity` does not accept, in the name of `name`. -/
def Arity.check (arity : Arity) (name : String) (count : Nat) : Except EvalError Unit :=
  if arity.accepts count then .ok () else .error (EvalError.arity name arity count)

end MiniScheme
