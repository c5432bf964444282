import MiniScheme.Native.Basic
/-! # Arguments of native procedures

The evaluator checks the argument count before it runs a body, so the arity errors here are for
direct use only.
-/
namespace MiniScheme.Procedures

/-- Fail because of the type of an argument of `procedure`. -/
def wrongArgument {α : Type} (procedure expected : String) (got : Value) : Native α := do
  Native.fail (← Native.read (fun store => store.wrongArgument procedure expected got))

def unary (name : String) (body : Value → Native Value) : NativeProcedure
  | [a] => body a
  | args => Native.fail (.arity name (.exact 1) args.length)

def binary (name : String) (body : Value → Value → Native Value) : NativeProcedure
  | [a, b] => body a b
  | args => Native.fail (.arity name (.exact 2) args.length)

def predicate (name : String) (test : Value → Bool) : NativeProcedure :=
  unary name (fun v => pure (.bool (test v)))

/-- The error of a value that should be a proper list. The value itself may be circular and is not
shown. -/
def notAList (name : String) (v : Value) : EvalError :=
  (EvalError.typeMismatch "list" v).withNote ("in argument to " ++ name)

/-- The elements of an argument that has to be a proper list. -/
def listArgument (store : Store) (name : String) (v : Value) : Except EvalError (List Value) :=
  match store.listLength v, store.spine v with
  | some _, .proper items => .ok items
  | _, _ => .error (notAList name v)

end MiniScheme.Procedures
