import MiniScheme.Forms.Operands
/-! # Binding forms: `define`, `set!`, `lambda`, `let`, `let*` -/
namespace MiniScheme.Forms

/-- Parameters, from at most `steps` values on, after those in `reversed`: symbols in a list that
ends in the empty list or in a symbol, no two the same. A list that goes round in a circle repeats
a parameter. -/
def formalsWithin (store : Store) (form : String) :
    (steps : Nat) → (reversed : List Symbol) → Value → Except EvalError Formals
  | 0, _, _ => .error (.badSyntax form "parameters never end")
  | steps + 1, reversed, v =>
    match v with
    | .nil => .ok (.fixed reversed.reverse)
    | .symbol x =>
      if reversed.any (fun y => y.same x) then
        .error (.badSyntax form ("duplicate parameter: " ++ x.name))
      else .ok (.variadic reversed.reverse x)
    | .pair c =>
      match store.first c with
      | .symbol x =>
        if reversed.any (fun y => y.same x) then
          .error (.badSyntax form ("duplicate parameter: " ++ x.name))
        else formalsWithin store form steps (x :: reversed) (store.rest c)
      | other => .error (.badSyntax form ("parameter must be a symbol: " ++ store.text other))
    | other => .error (.badSyntax form ("parameter must be a symbol: " ++ store.text other))

def parseFormals (store : Store) (form : String) (v : Value) : Except EvalError Formals :=
  formalsWithin store form (store.cells.size + 2) [] v

def makeClosure (form : String) (name : Option String) (formals : Value) (body : List Value)
    (env : FrameId) : Native ClosureId := do
  if body.isEmpty then bad form "empty body"
  else
    let formals ← Native.ofExcept (← Native.read (fun store => parseFormals store form formals))
    Native.update (fun store => store.newClosure ⟨name, formals, body, env⟩)

/-- `(lambda formals expr ...)` -/
def lambda : NativeForm := fun operands env => do
  match ← operandList "lambda" operands with
  | formals :: body => return .value (.closure (← makeClosure "lambda" none formals body env))
  | [] => bad "lambda" "expected formals and a body"

/-- Name a closure that has no name and that nobody else holds. -/
def nameIfSole (v : Value) (name : String) (held : Held) : Native Unit := do
  match v with
  | .closure c =>
    if (← Native.read (fun store => (store.closure c).name)).isNone then
      if ← Native.isSole c held then Native.change (fun store => store.nameClosure c name)
  | _ => pure ()

/-- `(define name expr)` and `(define (name . formals) expr ...)`. The value is the name. -/
def define : NativeForm := fun operands env => do
  let items ← operandList "define" operands
  match items with
  | [] => bad "define" "expected a name"
  | .symbol x :: rest =>
    match rest with
    | [expr] =>
      let v ← Native.eval expr env { values := items }
      nameIfSole v x.name { values := items }
      Native.change (fun store => store.define env x v)
      return .value (.symbol x)
    | _ => bad "define" ("expected exactly one expression for " ++ x.name)
  | .pair signature :: body =>
    match ← Native.read (fun store => store.first signature) with
    | .symbol x =>
      let formals ← Native.read (fun store => store.rest signature)
      let c ← makeClosure "define" (some x.name) formals body env
      Native.change (fun store => store.define env x (.closure c))
      return .value (.symbol x)
    | other => badValue "define" "procedure name must be a symbol: " other
  | other :: _ => badValue "define" "cannot define " other

/-- `(set! name expr)` -/
def assign : NativeForm := fun operands env => do
  let items ← operandList "set!" operands
  match items with
  | [.symbol x, expr] =>
    let v ← Native.eval expr env { values := items }
    fun store =>
      match store.assign env x v with
      | (.ok (), store) => .done (.value .unspecified) store
      | (.error e, store) => .fail e store
  | [target, _] => badValue "set!" "not a variable: " target
  | _ => bad "set!" "expected (set! name expr)"

/-- The names and expressions of `let` bindings, after those in `reversed`. -/
def bindingsAfter (form : String) (reversed : List (Symbol × Value)) :
    List Value → Native (List (Symbol × Value))
  | [] => pure reversed.reverse
  | binding :: bindings => do
    let malformed {α : Type} : Native α := badValue form "binding must be (name expr): " binding
    match ← Native.elements binding (fun _ => malformed) with
    | [.symbol x, init] => bindingsAfter form ((x, init) :: reversed) bindings
    | _ => malformed

def bindingList (form : String) (bindings : List Value) : Native (List (Symbol × Value)) :=
  bindingsAfter form [] bindings

/-- The bindings and the body, not empty, of a form like `let`. -/
def splitLet (form : String) (operands : Value) :
    Native (List (Symbol × Value) × List Value) := do
  match ← operandList form operands with
  | [] => bad form "expected bindings and a body"
  | [_] => bad form "empty body"
  | bindings :: body =>
    let bindings ← Native.elements bindings
      (fun _ => bad form "bindings must form a proper list")
    return (← bindingList form bindings, body)

/-- Evaluate the expressions of `let` bindings in `env`, after those in `reversed`. A name that
comes twice is found when its turn comes. -/
def letValues (held : List Value) (env : FrameId) (reversed : List (Symbol × Value)) :
    List (Symbol × Value) → Native (List (Symbol × Value))
  | [] => pure reversed.reverse
  | (x, init) :: bindings => do
    if reversed.any (fun b => b.1.same x) then bad "let" ("duplicate binding: " ++ x.name)
    else
      let v ← Native.eval init env { values := held }
      letValues (v :: held) env ((x, v) :: reversed) bindings

/-- `(let ((name init) ...) expr ...)`: all `init`s see the environment of the form. -/
def letForm : NativeForm := fun operands env => do
  let (bindings, body) ← splitLet "let" operands
  let values ← letValues (bindings.map (·.2) ++ body) env [] bindings
  let frame ← Native.update (fun store => store.child env)
  Native.change (fun store => store.defineAll frame values)
  sequence { values := body, frames := [frame] } frame body

/-- Bind names one after the other, each in a new frame inside the one before. The expressions not
yet bound head the list `held`. -/
def nestedFrames (held : List Value) (scope : FrameId) : List (Symbol × Value) → Native FrameId
  | [] => pure scope
  | (x, init) :: bindings => do
    let v ← Native.eval init scope { values := held }
    let inner ← Native.update (fun store => store.child scope)
    Native.change (fun store => store.define inner x v)
    nestedFrames held.tail inner bindings

/-- `(let* ((name init) ...) expr ...)`: each `init` sees the bindings before it. Without bindings
the body still gets a frame of its own. -/
def letStar : NativeForm := fun operands env => do
  let (bindings, body) ← splitLet "let*" operands
  let scope ← nestedFrames (bindings.map (·.2) ++ body) env bindings
  let scope ← if bindings.isEmpty then Native.update (fun store => store.child env) else pure scope
  sequence { values := body, frames := [scope] } scope body

end MiniScheme.Forms
