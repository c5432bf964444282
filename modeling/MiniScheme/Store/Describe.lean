import MiniScheme.Printer
import MiniScheme.Text.Revealed
/-! # Descriptions

What a procedure or form is made of, for those who look into a program. Other values are described
by their text.
-/
namespace MiniScheme

def Symbol.describe (x : Symbol) : String := "Symbol(" ++ x.name ++ ")"

def Builtin.describe (b : Builtin) : String :=
  "Builtin \x7b name: " ++ Text.revealedText b.name ++ ", arity: " ++ b.arity.describe ++ ", .. \x7d"

def SpecialForm.describe (f : SpecialForm) : String :=
  "Syntax \x7b name: " ++ Text.revealedText f.name ++ ", .. \x7d"

def Formals.describe : Formals → String
  | fixed names => "Fixed([" ++ ", ".intercalate (names.map Symbol.describe) ++ "])"
  | variadic names rest =>
    "Variadic \x7b fixed: [" ++ ", ".intercalate (names.map Symbol.describe) ++ "], rest: " ++
      rest.describe ++ " \x7d"

def Closure.describe (c : Closure) : String :=
  "Lambda \x7b name: " ++
    (match c.name with
      | some name => "Some(" ++ Text.revealedText name ++ ")"
      | none => "None") ++
    ", formals: " ++ c.formals.describe ++ ", body_len: " ++ toString c.body.length ++ ", .. \x7d"

/-- Description of a value; a closure's ends with the name that messages use. -/
def Store.describe (s : Store) : Value → String
  | .builtin b => b.describe
  | .form f => f.describe
  | .closure c => (s.closure c).describe ++ " " ++ (s.closure c).displayName
  | v => s.text v

end MiniScheme
