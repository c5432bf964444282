import MiniScheme.Procedures.Arguments
import MiniScheme.Word
/-! # Pairs and lists -/
namespace MiniScheme.Procedures

def onPair {α : Type} (name : String) (v : Value) (body : CellId → Native α) : Native α :=
  match v with
  | .pair c => body c
  | other => wrongArgument name "pair" other

def cons : NativeProcedure := binary "cons" fun first rest =>
  Native.update (fun store => store.cons first rest)

def car : NativeProcedure := unary "car" fun v =>
  onPair "car" v fun c => Native.read (fun store => store.first c)

def cdr : NativeProcedure := unary "cdr" fun v =>
  onPair "cdr" v fun c => Native.read (fun store => store.rest c)

def setCar : NativeProcedure := binary "set-car!" fun v new =>
  onPair "set-car!" v fun c => do
    Native.change (fun store => store.setFirst c new)
    return .unspecified

def setCdr : NativeProcedure := binary "set-cdr!" fun v new =>
  onPair "set-cdr!" v fun c => do
    Native.change (fun store => store.setRest c new)
    return .unspecified

def list : NativeProcedure := fun args => Native.list args

/-- Refuses improper and circular lists. -/
def length : NativeProcedure := unary "length" fun v => do
  match ← Native.read (fun store => store.listLength v) with
  | some n =>
    match Word.ofInt? n with
    | some w => pure (.int w)
    | none => Native.fail (.integerOverflow "length")
  | none => Native.fail (notAList "length" v)

def reverse : NativeProcedure := unary "reverse" fun v => do
  let items ← Native.ofExcept (← Native.read (fun store => listArgument store "reverse" v))
  Native.list items.reverse

/-- The elements of all lists, the last one first, in front of `reversed`. -/
def concatenation (store : Store) (reversed : List Value) :
    List Value → Except EvalError (List Value)
  | [] => .ok reversed
  | v :: vs =>
    match listArgument store "append" v with
    | .ok items => concatenation store (items.reverse ++ reversed) vs
    | .error e => .error e

/-- Copies all lists but the last argument, which may be any value and becomes the tail. -/
def append : NativeProcedure := fun args =>
  match args.getLast? with
  | none => pure .nil
  | some tail => do
    let reversed ← Native.ofExcept
      (← Native.read (fun store => concatenation store [] args.dropLast))
    Native.update (fun store => store.consAll tail reversed)

def lists : List (String × Arity × NativeProcedure) :=
  [("cons", .exact 2, cons),
   ("car", .exact 1, car),
   ("cdr", .exact 1, cdr),
   ("set-car!", .exact 2, setCar),
   ("set-cdr!", .exact 2, setCdr),
   ("list", .atLeast 0, list),
   ("length", .exact 1, length),
   ("reverse", .exact 1, reverse),
   ("append", .atLeast 0, append)]

end MiniScheme.Procedures
