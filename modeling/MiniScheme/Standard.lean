import MiniScheme.Forms.Binding
import MiniScheme.Forms.Control
import MiniScheme.Procedures.Application
import MiniScheme.Procedures.Arithmetic
import MiniScheme.Procedures.Lists
import MiniScheme.Procedures.Predicates
import MiniScheme.Procedures.Strings
/-! # The standard library -/
namespace MiniScheme.Standard

/-- Special forms by name, in the order they are defined. -/
def forms : List (String × NativeForm) :=
  [("quote", Forms.quote),
   ("if", Forms.conditional),
   ("begin", Forms.begin),
   ("cond", Forms.cond),
   ("and", Forms.conjunction),
   ("or", Forms.disjunction),
   ("define", Forms.define),
   ("set!", Forms.assign),
   ("lambda", Forms.lambda),
   ("let", Forms.letForm),
   ("let*", Forms.letStar)]

/-- Native procedures by name, in the order they are defined. -/
def procedures : List (String × Arity × NativeProcedure) :=
  Procedures.arithmetic ++ Procedures.lists ++ Procedures.predicates ++ Procedures.strings ++
    Procedures.output ++ Procedures.application

end MiniScheme.Standard
