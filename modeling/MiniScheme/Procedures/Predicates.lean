import MiniScheme.Procedures.Arguments
/-! # Type tests and equivalence -/
namespace MiniScheme.Procedures

def isList : NativeProcedure := unary "list?" fun v => do
  return .bool (← Native.read (fun store => store.isList v))

def isString : Value → Bool
  | .str _ => true
  | _ => false

/-- Only integers proper; `2.0` is none. -/
def isInteger : Value → Bool
  | .int _ => true
  | _ => false

def isBoolean : Value → Bool
  | .bool _ => true
  | _ => false

def isZero : NativeProcedure := unary "zero?" fun v =>
  match v with
  | .int n => pure (.bool (n == 0))
  | .float d => pure (.bool d.isZero)
  | other => wrongArgument "zero?" "number" other

def isSame : NativeProcedure := binary "eq?" fun a b => pure (.bool (a.same b))

def isEqual : NativeProcedure := binary "equal?" fun a b => do
  match ← Native.read (fun store => store.equal? a b) with
  | some answer => pure (.bool answer)
  | none => Native.endless

def predicates : List (String × Arity × NativeProcedure) :=
  [("null?", .exact 1, predicate "null?" Value.isNull),
   ("pair?", .exact 1, predicate "pair?" Value.isPair),
   ("list?", .exact 1, isList),
   ("symbol?", .exact 1, predicate "symbol?" Value.isSymbol),
   ("string?", .exact 1, predicate "string?" isString),
   ("number?", .exact 1, predicate "number?" Value.isNumber),
   ("integer?", .exact 1, predicate "integer?" isInteger),
   ("boolean?", .exact 1, predicate "boolean?" isBoolean),
   ("procedure?", .exact 1, predicate "procedure?" Value.isProcedure),
   ("zero?", .exact 1, isZero),
   ("not", .exact 1, predicate "not" (fun v => !v.isTrue)),
   ("eq?", .exact 2, isSame),
   ("equal?", .exact 2, isEqual)]

end MiniScheme.Procedures
