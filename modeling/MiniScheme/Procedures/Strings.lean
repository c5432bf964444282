import MiniScheme.Procedures.Arguments
import MiniScheme.Word
/-! # Strings, symbols and output -/
namespace MiniScheme.Procedures

def onString {α : Type} (name : String) (v : Value) (body : String → Native α) : Native α :=
  match v with
  | .str text => body text
  | other => wrongArgument name "string" other

/-- Length in characters. -/
def stringLength : NativeProcedure := unary "string-length" fun v =>
  onString "string-length" v fun text =>
    match Word.ofInt? text.length with
    | some w => pure (.int w)
    | none => Native.fail (.integerOverflow "string-length")

/-- The strings joined, after `out`. -/
def joined (out : String) : List Value → Native String
  | [] => pure out
  | v :: vs => onString "string-append" v fun text => joined (out ++ text) vs

def stringAppend : NativeProcedure := fun args => do return .str (← joined "" args)

def symbolToString : NativeProcedure := unary "symbol->string" fun v =>
  match v with
  | .symbol x => pure (.str x.name)
  | other => wrongArgument "symbol->string" "symbol" other

def stringToSymbol : NativeProcedure := unary "string->symbol" fun v =>
  onString "string->symbol" v fun text => do return .symbol (← Native.intern text)

def numberToString : NativeProcedure := unary "number->string" fun v => do
  if v.isNumber then return .str (← Native.text v)
  else wrongArgument "number->string" "number" v

/-- Print a value, its strings unquoted. -/
def display : NativeProcedure := unary "display" fun v => do
  Native.print (← Native.read (fun store => store.displayText v))
  return .unspecified

def newline : NativeProcedure := fun _ => do
  Native.print "\n"
  return .unspecified

def strings : List (String × Arity × NativeProcedure) :=
  [("string-length", .exact 1, stringLength),
   ("string-append", .atLeast 0, stringAppend),
   ("symbol->string", .exact 1, symbolToString),
   ("string->symbol", .exact 1, stringToSymbol),
   ("number->string", .exact 1, numberToString)]

def output : List (String × Arity × NativeProcedure) :=
  [("display", .exact 1, display),
   ("newline", .exact 0, newline)]

end MiniScheme.Procedures
