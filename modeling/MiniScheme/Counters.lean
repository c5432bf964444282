/-! # Evaluation counters -/
namespace MiniScheme

/-- Counts of what an evaluator did; the first four wrap at 64 bits. -/
structure Counters where
  expressions : UInt64 := 0
  builtinCalls : UInt64 := 0
  procedureCalls : UInt64 := 0
  formsEntered : UInt64 := 0
  /-- Deepest nesting seen. -/
  maxDepth : Nat := 0
  /-- Most values that waited on the call stack. -/
  peakCallStack : Nat := 0
deriving DecidableEq, Repr, Inhabited

namespace Counters

def countExpression (c : Counters) : Counters := { c with expressions := c.expressions + 1 }

def countBuiltinCall (c : Counters) : Counters := { c with builtinCalls := c.builtinCalls + 1 }

def countProcedureCall (c : Counters) : Counters :=
  { c with procedureCalls := c.procedureCalls + 1 }

def countForm (c : Counters) : Counters := { c with formsEntered := c.formsEntered + 1 }

def recordDepth (c : Counters) (depth : Nat) : Counters :=
  { c with maxDepth := max c.maxDepth depth }

def recordStack (c : Counters) (size : Nat) : Counters :=
  { c with peakCallStack := max c.peakCallStack size }

def report (c : Counters) : String :=
  "Evaluation profile:\n" ++
  "  Expressions evaluated: " ++ toString c.expressions.toNat ++ "\n" ++
  "  Built-in calls:        " ++ toString c.builtinCalls.toNat ++ "\n" ++
  "  Procedure calls:       " ++ toString c.procedureCalls.toNat ++ "\n" ++
  "  Syntax forms:          " ++ toString c.formsEntered.toNat ++ "\n" ++
  "  Max nesting depth:     " ++ toString c.maxDepth ++ "\n" ++
  "  Peak call stack:       " ++ toString c.peakCallStack

end Counters
end MiniScheme
