import MiniScheme.Procedures.Arguments
import MiniScheme.Word
/-! # Arithmetic

Integer results have to fit a 64-bit word. One double among the operands makes the result a double.
Division of integers stays an integer when it leaves no remainder.
-/
namespace MiniScheme

inductive Number where
  | int (n : Int64)
  | float (d : Double)
deriving DecidableEq, Repr

namespace Number

def ofValue? : Value → Option Number
  | .int n => some (.int n)
  | .float d => some (.float d)
  | _ => none

def toValue : Number → Value
  | int n => .int n
  | float d => .float d

def toDouble : Number → Double
  | int n => Double.ofInt n.toInt
  | float d => d

def isFloat : Number → Bool
  | int _ => false
  | float _ => true

/-- Numeric order; `none` when a NaN is involved. -/
def compare? : Number → Number → Option Ordering
  | int x, int y => some (compare x.toInt y.toInt)
  | a, b => a.toDouble.compare? b.toDouble

end Number

/-- An operation in its checked integer form and in its double form. -/
structure Operation where
  name : String
  onInts : Int64 → Int64 → Option Int64
  onDoubles : Double → Double → Double

namespace Operation

def addition : Operation := ⟨"+", Word.add?, Double.add⟩

def subtraction : Operation := ⟨"-", Word.sub?, Double.sub⟩

def multiplication : Operation := ⟨"*", Word.mul?, Double.mul⟩

def apply (op : Operation) : Number → Number → Except EvalError Number
  | .int x, .int y =>
    match op.onInts x y with
    | some r => .ok (.int r)
    | none => .error (.integerOverflow op.name)
  | a, b => .ok (.float (op.onDoubles a.toDouble b.toDouble))

/-- Combine from left to right. -/
def fold (op : Operation) (start : Number) : List Number → Except EvalError Number
  | [] => .ok start
  | n :: ns =>
    match op.apply start n with
    | .ok r => op.fold r ns
    | .error e => .error e

end Operation

namespace Number

def divide (a b : Number) : Except EvalError Number :=
  match a, b with
  | .int x, .int y =>
    if y = 0 then .error .divisionByZero
    else
      match Word.quotient? x y, Word.remainder? x y with
      | some q, some r => if r = 0 then .ok (.int q) else .ok (.float (a.toDouble.div b.toDouble))
      | _, _ => .error (.integerOverflow "/")
  | _, _ =>
    if b.toDouble.isZero then .error .divisionByZero
    else .ok (.float (a.toDouble.div b.toDouble))

/-- Divide from left to right. -/
def divideAll (a : Number) : List Number → Except EvalError Number
  | [] => .ok a
  | n :: ns =>
    match a.divide n with
    | .ok r => r.divideAll ns
    | .error e => .error e

/-- The first number such that no later one stands in relation `wins` to it, searched from the
left. -/
def extremum (wins : Ordering) (best : Number) : List Number → Number
  | [] => best
  | n :: ns => extremum wins (if n.compare? best = some wins then n else best) ns

/-- Whether `holds` of every two neighbours. -/
def chain (holds : Ordering → Bool) : List Number → Bool
  | a :: b :: ns => (a.compare? b).any holds && chain holds (b :: ns)
  | _ => true

end Number

namespace Procedures

/-- All arguments as numbers, after those in `reversed`; the first that is none is an error. -/
def numbersAfter (procedure : String) (reversed : List Number) : List Value → Native (List Number)
  | [] => pure reversed.reverse
  | v :: vs =>
    match Number.ofValue? v with
    | some n => numbersAfter procedure (n :: reversed) vs
    | none => wrongArgument procedure "number" v

def numbers (procedure : String) (args : List Value) : Native (List Number) :=
  numbersAfter procedure [] args

/-- The numbers of a procedure that needs at least one. -/
def numbers₁ (procedure : String) (args : List Value) : Native (Number × List Number) := do
  match ← numbers procedure args with
  | n :: ns => pure (n, ns)
  | [] => Native.fail (.arity procedure (.atLeast 1) 0)

def ofNumber (r : Except EvalError Number) : Native Value := Native.ofExcept (r.map Number.toValue)

def add : NativeProcedure := fun args => do
  ofNumber (Operation.addition.fold (.int 0) (← numbers "+" args))

def multiply : NativeProcedure := fun args => do
  ofNumber (Operation.multiplication.fold (.int 1) (← numbers "*" args))

/-- Subtract from left to right; one argument is negated. -/
def subtract : NativeProcedure := fun args => do
  match ← numbers₁ "-" args with
  | (n, []) => ofNumber (Operation.subtraction.apply (.int 0) n)
  | (n, ns) => ofNumber (Operation.subtraction.fold n ns)

/-- Divide from left to right; one argument is inverted. -/
def divide : NativeProcedure := fun args => do
  match ← numbers₁ "/" args with
  | (n, []) => ofNumber (Number.divide (.int 1) n)
  | (n, ns) => ofNumber (n.divideAll ns)

/-- An operation on two integers, of which the second must not be zero. -/
def integerDivision (name : String) (op : Int64 → Int64 → Option Int64) : NativeProcedure :=
  binary name fun a b =>
    match a with
    | .int x =>
      match b with
      | .int y =>
        if y = 0 then Native.fail .divisionByZero
        else
          match op x y with
          | some r => pure (.int r)
          | none => Native.fail (.integerOverflow name)
      | b => wrongArgument name "int" b
    | a => wrongArgument name "int" a

def quotient : NativeProcedure := integerDivision "quotient" Word.quotient?

def remainder : NativeProcedure := integerDivision "remainder" Word.remainder?

def modulo : NativeProcedure := integerDivision "modulo" Word.modulo?

def abs : NativeProcedure := unary "abs" fun v =>
  match Number.ofValue? v with
  | some (.int n) =>
    match Word.abs? n with
    | some r => pure (.int r)
    | none => Native.fail (.integerOverflow "abs")
  | some (.float d) => pure (.float d.abs)
  | none => wrongArgument "abs" "number" v

/-- The least or greatest argument, a double if any argument is. -/
def extremum (name : String) (wins : Ordering) : NativeProcedure := fun args => do
  let (n, ns) ← numbers₁ name args
  let best := Number.extremum wins n ns
  if (n :: ns).any Number.isFloat then pure (.float best.toDouble) else pure best.toValue

def minimum : NativeProcedure := extremum "min" .lt

def maximum : NativeProcedure := extremum "max" .gt

/-- Whether all neighbours among the arguments compare as `holds` says. -/
def comparison (name : String) (holds : Ordering → Bool) : NativeProcedure := fun args => do
  return .bool (Number.chain holds (← numbers name args))

def arithmetic : List (String × Arity × NativeProcedure) :=
  [("+", .atLeast 0, add),
   ("-", .atLeast 1, subtract),
   ("*", .atLeast 0, multiply),
   ("/", .atLeast 1, divide),
   ("quotient", .exact 2, quotient),
   ("remainder", .exact 2, remainder),
   ("modulo", .exact 2, modulo),
   ("abs", .exact 1, abs),
   ("min", .atLeast 1, minimum),
   ("max", .atLeast 1, maximum),
   ("=", .atLeast 1, comparison "=" Ordering.isEq),
   ("<", .atLeast 1, comparison "<" Ordering.isLT),
   (">", .atLeast 1, comparison ">" Ordering.isGT),
   ("<=", .atLeast 1, comparison "<=" Ordering.isLE),
   (">=", .atLeast 1, comparison ">=" Ordering.isGE)]

end Procedures
end MiniScheme
