import MiniScheme.Native.Basic
/-! # Operands of special forms -/
namespace MiniScheme.Forms

def bad {α : Type} (form reason : String) : Native α := Native.fail (.badSyntax form reason)

/-- Fail with bad syntax in `form`, the text of `v` behind the reason. -/
def badValue {α : Type} (form reason : String) (v : Value) : Native α := do
  bad form (reason ++ (← Native.text v))

def operandList (form : String) (operands : Value) : Native (List Value) :=
  Native.elements operands (fun _ => bad form "operands must form a proper list")

/-- Evaluate all expressions of `body` but the last, which is left to be evaluated in place of the
form. No expressions at all give the unspecified value. -/
def sequence (held : Held) (env : FrameId) : (body : List Value) → Native Outcome
  | [] => pure (.value .unspecified)
  | [last] => pure (.tail last env)
  | expr :: next :: body => do
    let _ ← Native.eval expr env held
    sequence held env (next :: body)

end MiniScheme.Forms
