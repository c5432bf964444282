import MiniScheme.Error
/-! # Read errors -/
namespace MiniScheme

/-- What the text ended inside of. -/
inductive Unfinished where
  | quotation
  | list
  | string
  | escape
deriving DecidableEq, Repr

def Unfinished.text : Unfinished → String
  | quotation => "expected datum after quote"
  | list => "list must end with ')'"
  | string => "string must end with '\"'"
  | escape => "escape sequence at end of input"

inductive DotFault where
  | missingTail
  | misplaced
  | secondTail
deriving DecidableEq, Repr

def DotFault.text : DotFault → String
  | missingTail => "expected datum after '.'"
  | misplaced => "'.' must follow at least one datum, once"
  | secondTail => "more than one datum after '.'"

inductive ReadError where
  | unexpectedEnd (inside : Unfinished) (line : Nat)
  | unexpectedChar (ch : Char) (line : Nat)
  | invalidNumber (token : String) (line : Nat)
  | invalidEscape (ch : Char) (line : Nat)
  | badDottedList (fault : DotFault) (line : Nat)
  | symbolTable (cause : SymbolTableError)
deriving DecidableEq, Repr

namespace ReadError

def onLine (line : Nat) : String := " (line " ++ toString line ++ ")"

def message : ReadError → String
  | unexpectedEnd inside line => "unexpected end of input: " ++ inside.text ++ onLine line
  | unexpectedChar ch line => "unexpected '" ++ ch.toString ++ "'" ++ onLine line
  | invalidNumber token line => "invalid number `" ++ token ++ "`" ++ onLine line
  | invalidEscape ch line =>
    "invalid escape sequence '\\" ++ ch.toString ++ "' in string" ++ onLine line
  | badDottedList fault line => "bad dotted list: " ++ fault.text ++ onLine line
  | symbolTable cause => cause.message

/-- Whether more text could complete the datum. -/
def isIncomplete : ReadError → Bool
  | unexpectedEnd _ _ => true
  | _ => false

def toEvalError : ReadError → EvalError
  | symbolTable cause => .ofSymbolTable cause
  | e => .parse e.message

end ReadError
end MiniScheme
