import MiniScheme.Interpreter
/-! # Sessions

A session is fed line by line. Data are evaluated as soon as they are complete; text that ends
inside a datum stays pending until more lines complete it.
-/
namespace MiniScheme

/-- An interpreter with the text typed so far that is no complete datum. -/
structure Session where
  interpreter : Interpreter
  pending : String

/-- What became of a line. -/
inductive Feed where
  /-- The text ends inside a datum, and nothing was evaluated. -/
  | needMore
  /-- Results in order; an error is always the last one. -/
  | evaluated (results : List (Except EvalError Value))

namespace Session

def ofInterpreter (i : Interpreter) : Session := ⟨i, ""⟩

def isPending (s : Session) : Bool := !s.pending.isEmpty

def reset (s : Session) : Session := { s with pending := "" }

def unread (reader : Reader) : String := String.ofList reader.cursor.upcoming

def valuesOf (results : List (Except EvalError Value)) : List Value :=
  results.filterMap (fun r => r.toOption)

/-- Evaluate the data of a text one after the other. Answers the results, last one first, and the
text from the first unfinished datum on. -/
def evalData (fuel : Nat) (i : Interpreter) (reader : Reader)
    (reversed : List (Except EvalError Value)) :
    Option (List (Except EvalError Value) × String × Interpreter) :=
  match fuel with
  | 0 => none
  | fuel + 1 =>
    match i.readValue reader with
    | (.ok none, _, i) => some (reversed, "", i)
    | (.error e, _, i) =>
      if e.isIncomplete then some (reversed, unread reader, i)
      else some (.error e.toEvalError :: reversed, "", i)
    | (.ok (some datum), after, i) =>
      let global := i.global
      match i.evaluate fuel ⟨valuesOf reversed, []⟩ datum global with
      | some (.ok v, i) => evalData fuel i after (.ok v :: reversed)
      | some (.error e, i) => some (.error e :: reversed, "", i)
      | none => none

/-- Add a line and evaluate every datum it completes. -/
def feed (fuel : Nat) (s : Session) (line : String) : Option (Feed × Session) :=
  match s with
  | ⟨i, pending⟩ =>
    match evalData fuel i (Reader.ofString (pending ++ line ++ "\n")) [] with
    | some (reversed, pending, i) =>
      if reversed.isEmpty && !pending.isEmpty then some (.needMore, ⟨i, pending⟩)
      else some (.evaluated reversed.reverse, ⟨i, pending⟩)
    | none => none

end Session
end MiniScheme
