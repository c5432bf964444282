import MiniScheme.Session
import MiniScheme.Shell.Files
import MiniScheme.Shell.Options
/-! # Commands

What the program does for a command line, given how files read and what its input holds. A command
comes to a report: exit status and the texts written to the two streams. The interactive loop is a
function on one line at a time, so that a program may write what each line leads to before it reads
the next.
-/
namespace MiniScheme.Shell

structure Written where
  out : String := ""
  err : String := ""
deriving DecidableEq, Repr

namespace Written

def onOut (text : String) : Written := { out := text }

def onErr (text : String) : Written := { err := text }

def append (a b : Written) : Written := ⟨a.out ++ b.out, a.err ++ b.err⟩

end Written

structure Report where
  status : Nat
  written : Written
deriving DecidableEq, Repr

def usage : String :=
  "Skim - a Scheme-like interpreter\n" ++
  "\n" ++
  "Usage: skim [command] [options]\n" ++
  "\n" ++
  "Commands:\n" ++
  "  repl              Interactive read-eval-print loop (default)\n" ++
  "  run <file>        Evaluate every expression in a file\n" ++
  "  eval \"<expr>\"     Evaluate expressions and print the last value\n" ++
  "  help              Show this message\n" ++
  "\n" ++
  "Options:\n" ++
  "  --max-depth=<n>   Nested evaluation limit, or `none` (default: 10000)\n" ++
  "  --profile         Print evaluation counters to stderr\n" ++
  "\n" ++
  "Set RUST_LOG (e.g. RUST_LOG=skim_eval=debug) to enable tracing.\n"

inductive Command where
  | repl (options : Options)
  | run (path : String) (options : Options)
  | eval (source : String) (options : Options)
  /-- Nothing but to say this. -/
  | say (report : Report)

def Command.parse (args : List String) : Command :=
  match Options.parse args with
  | .error e => .say ⟨1, .onErr ("error: " ++ e.message ++ "\n\n" ++ usage)⟩
  | .ok (options, args) =>
    match args with
    | [] => .repl options
    | command :: rest =>
      if command = "repl" then .repl options
      else if command = "run" then
        match rest with
        | path :: _ => .run path options
        | [] => .say ⟨1, .onErr "Usage: skim run <file> [options]\n"⟩
      else if command = "eval" then
        match rest with
        | source :: _ => .eval source options
        | [] => .say ⟨1, .onErr "Usage: skim eval \"<expr>\" [options]\n"⟩
      else if command = "help" || command = "-h" || command = "--help" then .say ⟨0, .onErr usage⟩
      else .say ⟨1, .onErr ("Unknown command: " ++ command ++ "\n\n" ++ usage)⟩

def errorLine (e : EvalError) : Written := .onErr ("error: " ++ e.text ++ "\n")

/-- The counters, if the interpreter keeps them. -/
def profile (i : Interpreter) : Written :=
  match i.machine.counters with
  | some counters => .onErr (counters.report ++ "\n")
  | none => {}

/-- The line that shows a value; the unspecified value is not shown. -/
def valueLine (i : Interpreter) (v : Value) : Written :=
  if v.isUnspecified then {} else .onOut (i.machine.store.text v ++ "\n")

/-- Evaluate all of `source`, and show the last value if `shown`. -/
def evalAll (fuel : Nat) (options : Options) (source : String) (shown : Bool) : Option Report :=
  match options.interpreter with
  | .error e => some ⟨1, errorLine e⟩
  | .ok i =>
    match i.evalSource fuel source with
    | none => none
    | some (result, i) =>
      let (output, i) := i.takeOutput
      match result with
      | .ok v =>
        let value := if shown then valueLine i v else {}
        some ⟨0, ((Written.onOut output).append value).append (profile i)⟩
      | .error e => some ⟨1, ((Written.onOut output).append (errorLine e)).append (profile i)⟩

def runFile (fuel : Nat) (options : Options) (path : String)
    (content : Except FileError String) : Option Report :=
  match content with
  | .error e => some ⟨1, .onErr ("error: cannot read " ++ path ++ ": " ++ e.message ++ "\n")⟩
  | .ok source => evalAll fuel options source false

def prompt (s : Session) : String := if s.isPending then "  ... " else "skim> "

inductive Loop where
  | running (session : Session)
  | ended (status : Nat)

/-- Show results up to one that ends the loop. -/
def showResults (i : Interpreter) (written : Written) :
    List (Except EvalError Value) → Written × Bool
  | [] => (written, true)
  | .ok v :: results => showResults i (written.append (valueLine i v)) results
  | .error e :: results =>
    let written := written.append (errorLine e)
    if e.isFatal then (written.append (profile i), false) else showResults i written results

/-- A line without the line ends behind it. -/
def trimLine (line : String) : String :=
  String.ofList (line.toList.reverse.dropWhile (fun c => c == '\n' || c == '\r')).reverse

def replLine (fuel : Nat) (s : Session) (line : String) : Option (Written × Loop) :=
  match s.feed fuel (trimLine line) with
  | none => none
  | some (.needMore, s) => some ({}, .running s)
  | some (.evaluated results, s) =>
    let (output, i) := s.interpreter.takeOutput
    let s : Session := { s with interpreter := i }
    match showResults i (.onOut output) results with
    | (written, true) => some (written, .running s)
    | (written, false) => some (written, .ended 1)

def replUnreadable : Written := .onErr ("error: cannot read input: " ++ notTextMessage ++ "\n")

def replEnd (s : Session) : Written :=
  ((Written.onOut "\n").append
    (if s.isPending then .onErr "warning: discarding incomplete input at end of file\n" else {})).append
    (profile s.interpreter)

/-- The interactive loop on the lines of an input; a line that is no text is `none`. -/
def replLines (fuel : Nat) (s : Session) (written : Written) :
    List (Option String) → Option Report
  | [] => some ⟨0, (written.append (.onOut (prompt s))).append (replEnd s)⟩
  | none :: _ => some ⟨1, (written.append (.onOut (prompt s))).append replUnreadable⟩
  | some line :: lines =>
    match replLine fuel s line with
    | none => none
    | some (more, loop) =>
      let written := (written.append (.onOut (prompt s))).append more
      match loop with
      | .running s => replLines fuel s written lines
      | .ended status => some ⟨status, written⟩

def splitLines (current : ByteArray) (reversed : List ByteArray) : List UInt8 → List ByteArray
  | [] => (if current.isEmpty then reversed else current :: reversed).reverse
  | b :: bytes =>
    if b = 10 then splitLines ByteArray.empty (current.push b :: reversed) bytes
    else splitLines (current.push b) reversed bytes

def inputLines (input : ByteArray) : List (Option String) :=
  (splitLines ByteArray.empty [] input.toList).map String.fromUTF8?

/-- The interactive loop on all of an input. -/
def repl (fuel : Nat) (options : Options) (input : ByteArray) : Option Report :=
  match options.interpreter with
  | .error e => some ⟨1, errorLine e⟩
  | .ok i => replLines fuel (Session.ofInterpreter i) {} (inputLines input)

/-- What the program does for a command line, `content` being what reading a file comes to and
`input` what the standard input holds. -/
def perform (fuel : Nat) (args : List String) (input : ByteArray)
    (content : String → Except FileError ByteArray) : Option Report :=
  match Command.parse args with
  | .repl options => repl fuel options input
  | .run path options => runFile fuel options path (content path >>= fileText)
  | .eval source options => evalAll fuel options source true
  | .say report => some report

end MiniScheme.Shell
