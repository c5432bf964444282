import MiniScheme.Machine
import MiniScheme.Reader.Basic
import MiniScheme.Standard
/-! # Interpreter

An interpreter keeps its machine, its library and its outermost frame from one evaluation to the
next. All that evaluates takes the number of steps it may use and answers `none` if they do not
suffice. Interpreters that share a symbol table hand it on to each other with `withSymbols`.
-/
namespace MiniScheme

structure Config where
  /-- Largest nesting depth; `none` for no limit. -/
  maxDepth : Option Nat := some 10000
  /-- Whether to keep counters. -/
  profile : Bool := false
  /-- Whether to define the standard library. -/
  standard : Bool := true
  output : Output := .buffer ""

structure Interpreter where
  machine : Machine
  library : Library
  maxDepth : Option Nat
  /-- The outermost frame. -/
  global : FrameId

namespace Interpreter

/-- An interpreter with nothing defined. -/
def bare (config : Config) (symbols : SymbolTable) : Interpreter :=
  let (global, store) := Store.empty.newFrame none
  { machine :=
      { store := store
        symbols := symbols
        calls := CallStack.empty
        depth := 0
        counters := if config.profile then some {} else none
        output := config.output }
    library := {}
    maxDepth := config.maxDepth
    global := global }

def symbols (i : Interpreter) : SymbolTable := i.machine.symbols

/-- The interpreter with another state of the symbol table it shares. -/
def withSymbols (i : Interpreter) (symbols : SymbolTable) : Interpreter :=
  { i with machine := { i.machine with symbols := symbols } }

def intern (i : Interpreter) (name : String) : Except EvalError Symbol × Interpreter :=
  match i with
  | ⟨machine, library, maxDepth, global⟩ =>
    match machine.intern name with
    | (x, machine) => (x, ⟨machine, library, maxDepth, global⟩)

def print (i : Interpreter) (text : String) : Interpreter :=
  { i with machine := i.machine.print text }

/-- The text printed since it was last taken. -/
def takeOutput (i : Interpreter) : String × Interpreter :=
  (i.machine.output.text,
    { i with machine := { i.machine with output := i.machine.output.cleared } })

def changeStore {α : Type} (i : Interpreter) (f : Store → α × Store) : α × Interpreter :=
  match i with
  | ⟨⟨store, symbols, calls, depth, counters, output⟩, library, maxDepth, global⟩ =>
    match f store with
    | (a, store) => (a, ⟨⟨store, symbols, calls, depth, counters, output⟩, library, maxDepth, global⟩)

def bindGlobal (i : Interpreter) (x : Symbol) (v : Value) : Interpreter :=
  let global := i.global
  (i.changeStore (fun store => ((), store.define global x v))).2

def defineGlobal (i : Interpreter) (name : String) (v : Value) :
    Except EvalError Unit × Interpreter :=
  match i.intern name with
  | (.ok x, i) => (.ok (), i.bindGlobal x v)
  | (.error e, i) => (.error e, i)

def defineProcedure (i : Interpreter) (name : String) (arity : Arity) (body : NativeProcedure) :
    Except EvalError Unit × Interpreter :=
  match i.intern name with
  | (.ok x, i) =>
    let (v, library) := i.library.addProcedure name arity body
    (.ok (), { i with library := library }.bindGlobal x v)
  | (.error e, i) => (.error e, i)

def defineForm (i : Interpreter) (name : String) (rule : NativeForm) :
    Except EvalError Unit × Interpreter :=
  match i.intern name with
  | (.ok x, i) =>
    let (v, library) := i.library.addForm name rule
    (.ok (), { i with library := library }.bindGlobal x v)
  | (.error e, i) => (.error e, i)

/-- Carry out definitions one after the other, up to the first failure. -/
def defineEach {α : Type} (define : Interpreter → α → Except EvalError Unit × Interpreter)
    (i : Interpreter) : List α → Except EvalError Interpreter
  | [] => .ok i
  | a :: as =>
    match define i a with
    | (.ok (), i) => defineEach define i as
    | (.error e, _) => .error e

/-- An interpreter as configured. Fails only if the table cannot hold the library's names. -/
def build (config : Config) (symbols : SymbolTable) : Except EvalError Interpreter :=
  let i := bare config symbols
  if config.standard then
    match defineEach (fun i form => i.defineForm form.1 form.2) i Standard.forms with
    | .ok i => defineEach (fun i p => i.defineProcedure p.1 p.2.1 p.2.2) i Standard.procedures
    | .error e => .error e
  else .ok i

/-- What evaluation leaves as it is. -/
def setting (i : Interpreter) (caller : Held) : Setting := ⟨i.library, i.maxDepth, caller⟩

/-- Take steps from the state that `start` makes of the machine. -/
def runFrom (fuel : Nat) (i : Interpreter) (caller : Held)
    (start : Setting → Machine → State) : Option (Except EvalError Value × Interpreter) :=
  let setting := i.setting caller
  match i with
  | ⟨machine, library, maxDepth, global⟩ =>
    match (start setting machine).run setting fuel with
    | some (result, machine) => some (result, ⟨machine, library, maxDepth, global⟩)
    | none => none

/-- Evaluate `expr` in `env` for a caller who holds on to `caller`. After a failure the call stack
and the depth are what they were. -/
def evaluate (fuel : Nat) (i : Interpreter) (caller : Held) (expr : Value) (env : FrameId) :
    Option (Except EvalError Value × Interpreter) :=
  let base := i.machine.calls.size
  let depth := i.machine.depth
  match i.runFrom fuel caller (fun setting m => State.nest setting m [] expr env) with
  | some (.error e, i) =>
    some (.error e,
      { i with machine := { i.machine.truncateCalls base with depth := depth } })
  | finished => finished

def call (fuel : Nat) (i : Interpreter) (procedure : Value) (args : List Value) :
    Option (Except EvalError Value × Interpreter) :=
  i.runFrom fuel ⟨[procedure], []⟩ (fun setting m => State.call setting m [] procedure args)

/-- Read the next datum and give it pairs in the store. -/
def readValue (i : Interpreter) (reader : Reader) :
    Except ReadError (Option Value) × Reader × Interpreter :=
  match i with
  | ⟨⟨store, symbols, calls, depth, counters, output⟩, library, maxDepth, global⟩ =>
    match reader.read symbols with
    | ⟨.ok (some datum), reader, symbols⟩ =>
      match store.load datum with
      | (v, store) =>
        (.ok (some v), reader,
          ⟨⟨store, symbols, calls, depth, counters, output⟩, library, maxDepth, global⟩)
    | ⟨.ok none, reader, symbols⟩ =>
      (.ok none, reader,
        ⟨⟨store, symbols, calls, depth, counters, output⟩, library, maxDepth, global⟩)
    | ⟨.error e, reader, symbols⟩ =>
      (.error e, reader,
        ⟨⟨store, symbols, calls, depth, counters, output⟩, library, maxDepth, global⟩)

/-- Read and evaluate what is left of a text, the value before it being `last`. -/
def evalRest (fuel : Nat) (i : Interpreter) (reader : Reader) (last : Value) :
    Option (Except EvalError Value × Interpreter) :=
  match fuel with
  | 0 => none
  | fuel + 1 =>
    match i.readValue reader with
    | (.ok none, _, i) => some (.ok last, i)
    | (.error e, _, i) => some (.error e.toEvalError, i)
    | (.ok (some datum), reader, i) =>
      let global := i.global
      match i.evaluate fuel ⟨[last], []⟩ datum global with
      | some (.ok v, i) => i.evalRest fuel reader v
      | finished => finished

/-- Read and evaluate every datum of `source` in the outermost frame, up to the first error. The
value is that of the last datum. -/
def evalSource (fuel : Nat) (i : Interpreter) (source : String) :
    Option (Except EvalError Value × Interpreter) :=
  i.evalRest fuel (Reader.ofString source) .unspecified

/-- The first datum of `source`, not evaluated; the unspecified value if there is none. -/
def readSource (i : Interpreter) (source : String) : Except EvalError Value × Interpreter :=
  match i.readValue (Reader.ofString source) with
  | (.ok (some v), _, i) => (.ok v, i)
  | (.ok none, _, i) => (.ok .unspecified, i)
  | (.error e, _, i) => (.error e.toEvalError, i)

def describe (i : Interpreter) : String :=
  "Interpreter \x7b symbols: SharedSymbolTable(" ++ i.symbols.describe ++ "), call_stack: " ++
    toString i.machine.calls.size ++ ", max_depth: " ++
    (match i.maxDepth with
      | some limit => "Some(" ++ toString limit ++ ")"
      | none => "None") ++
    ", depth: " ++ toString i.machine.depth ++ ", .. \x7d"

end Interpreter
end MiniScheme
