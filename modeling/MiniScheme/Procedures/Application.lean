import MiniScheme.Procedures.Arguments
/-! # Application of procedures to lists -/
namespace MiniScheme.Procedures

/-- `(apply procedure arg ... list)`: call with the arguments and the elements of the list. -/
def apply : NativeProcedure := fun args =>
  match args with
  | procedure :: more@(_ :: _) => do
    let last := more.getLast?.getD .nil
    let spread ← Native.ofExcept (← Native.read (fun store => listArgument store "apply" last))
    Native.call procedure (more.dropLast ++ spread) {}
  | _ => Native.fail (.arity "apply" (.atLeast 2) args.length)

def application : List (String × Arity × NativeProcedure) := [("apply", .atLeast 2, apply)]

end MiniScheme.Procedures
