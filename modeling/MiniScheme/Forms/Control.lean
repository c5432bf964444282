import MiniScheme.Forms.Operands
/-! # Control forms: `quote`, `if`, `begin`, `cond`, `and`, `or` -/
namespace MiniScheme.Forms

/-- `(quote datum)` -/
def quote : NativeForm := fun operands _ => do
  match ← operandList "quote" operands with
  | [datum] => pure (.value datum)
  | _ => bad "quote" "expected exactly one datum"

/-- `(if test then [else])` -/
def conditional : NativeForm := fun operands env => do
  let items ← operandList "if" operands
  match items with
  | [test, consequent] =>
    if (← Native.eval test env { values := items }).isTrue then pure (.tail consequent env)
    else pure (.value .unspecified)
  | [test, consequent, alternative] =>
    if (← Native.eval test env { values := items }).isTrue then pure (.tail consequent env)
    else pure (.tail alternative env)
  | _ => bad "if" "expected (if test then [else])"

/-- `(begin expr ...)` -/
def begin : NativeForm := fun operands env => do
  let items ← operandList "begin" operands
  sequence { values := items, frames := [env] } env items

/-- Try the clauses of a `cond` one after the other. -/
def clauses (all : List Value) (otherwise : Symbol) (env : FrameId) :
    (rest : List Value) → Native Outcome
  | [] => pure (.value .unspecified)
  | clause :: rest => do
    let parts ← Native.elements clause (fun _ => badValue "cond" "clause must be a list: " clause)
    match parts with
    | [] => bad "cond" "empty clause"
    | test :: body =>
      let held : Held := { values := parts ++ all, frames := [env] }
      if test.asSymbol?.any (fun x => x.same otherwise) then
        if !rest.isEmpty then bad "cond" "else clause must be last"
        else if body.isEmpty then bad "cond" "else clause needs a body"
        else sequence held env body
      else
        let v ← Native.eval test env held
        if v.isTrue then
          if body.isEmpty then pure (.value v)
          else sequence { held with values := v :: held.values } env body
        else clauses all otherwise env rest

/-- `(cond (test expr ...) ... [(else expr ...)])` -/
def cond : NativeForm := fun operands env => do
  let items ← operandList "cond" operands
  let otherwise ← Native.intern "else"
  clauses items otherwise env items

/-- Evaluate expressions until one decides: its truth value is `decisive`. The last one is left to
be evaluated in place of the form. -/
def decide (decisive : Bool) (held : Held) (env : FrameId) : (exprs : List Value) → Native Outcome
  | [] => pure (.value (.bool !decisive))
  | [last] => pure (.tail last env)
  | expr :: next :: exprs => do
    let v ← Native.eval expr env held
    if v.isTrue == decisive then pure (.value v) else decide decisive held env (next :: exprs)

/-- `(and expr ...)`: the first false value, else the last value. -/
def conjunction : NativeForm := fun operands env => do
  let items ← operandList "and" operands
  decide false { values := items } env items

/-- `(or expr ...)`: the first true value, else the last value. -/
def disjunction : NativeForm := fun operands env => do
  let items ← operandList "or" operands
  decide true { values := items } env items

end MiniScheme.Forms
