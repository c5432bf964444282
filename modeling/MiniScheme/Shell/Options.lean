import MiniScheme.Interpreter
/-! # Command-line options -/
namespace MiniScheme.Shell

structure Options where
  /-- Largest nesting depth; `none` for no limit. -/
  maxDepth : Option Nat := some 10000
  /-- Whether to report counters at the end. -/
  profile : Bool := false
deriving DecidableEq, Repr

inductive OptionError where
  | unknown (option : String)
  | invalidDepth (value : String)
deriving DecidableEq, Repr

def OptionError.message : OptionError → String
  | unknown option => "unknown option: " ++ option
  | invalidDepth value =>
    "invalid --max-depth value `" ++ value ++ "`: expected a positive integer or `none`"

/-- Value of a decimal numeral without sign, if it fits an unsigned 64-bit word. -/
def parseDigits? (cs : List Char) : Option Nat :=
  if cs.isEmpty || !cs.all Text.isDigit then none
  else
    let n := Reader.digitsValue cs
    if n < 0x10000000000000000 then some n else none

/-- A depth limit: `none`, or a positive numeral that a plus sign may precede. -/
def parseDepth (value : String) : Except OptionError (Option Nat) :=
  if value = "none" then .ok none
  else
    let digits := match value.toList with
      | '+' :: cs => cs
      | cs => cs
    match parseDigits? digits with
    | some (n + 1) => .ok (some (n + 1))
    | _ => .error (.invalidDepth value)

/-- The rest of `text` after `start`, if it begins so. -/
def after? (start text : String) : Option String :=
  if start.toList.isPrefixOf text.toList then
    some (String.ofList (text.toList.drop start.length))
  else none

/-- Read `args` after those in `reversed`. -/
def parseFrom (options : Options) (reversed : List String) :
    List String → Except OptionError (Options × List String)
  | [] => .ok (options, reversed.reverse)
  | arg :: args =>
    match after? "--max-depth=" arg with
    | some value =>
      match parseDepth value with
      | .ok maxDepth => parseFrom { options with maxDepth := maxDepth } reversed args
      | .error e => .error e
    | none =>
      if arg = "--profile" then parseFrom { options with profile := true } reversed args
      else if (after? "--" arg).isSome && arg ≠ "--help" then .error (.unknown arg)
      else parseFrom options (arg :: reversed) args

/-- Options and the remaining arguments. A later option overrides an earlier one; `--help` counts
as an argument. -/
def Options.parse (args : List String) : Except OptionError (Options × List String) :=
  parseFrom {} [] args

def Options.interpreter (options : Options) : Except EvalError Interpreter :=
  Interpreter.build { maxDepth := options.maxDepth, profile := options.profile } SymbolTable.empty

end MiniScheme.Shell
