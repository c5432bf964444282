import MiniScheme.CallStack
import MiniScheme.Counters
import MiniScheme.Native.Basic
import MiniScheme.Store.Sharing
/-! # The evaluation machine

Evaluation goes in steps. A state consists of the machine proper (store, symbols, call stack,
counters, output), of what is being done at the moment, and of what waits for its answer, the
innermost first. The mark `nested` stands for an evaluation that is not in tail position: the
nesting depth is the number of these marks. Whatever replaces an expression in tail position is
evaluated with nothing new waiting.

A step changes nothing but by its rule, so `run` is its iteration until nothing waits any more; a
number of steps bounds it from outside.
-/
namespace MiniScheme

inductive Output where
  | buffer (text : String)
  | silent
deriving DecidableEq, Repr, Inhabited

namespace Output

def print : Output → String → Output
  | buffer text, more => buffer (text ++ more)
  | silent, _ => silent

theorem print_empty (output : Output) : output.print "" = output := by
  cases output <;> simp [print]

theorem print_print (output : Output) (text more : String) :
    (output.print text).print more = output.print (text ++ more) := by
  cases output <;> simp [print, String.append_assoc]

def text : Output → String
  | buffer text => text
  | silent => ""

def cleared : Output → Output
  | buffer _ => buffer ""
  | silent => silent

end Output

/-- What evaluation changes. -/
structure Machine where
  store : Store
  symbols : SymbolTable
  calls : CallStack
  /-- Number of nested evaluations under way. -/
  depth : Nat
  /-- Counts, if profiling. -/
  counters : Option Counters
  output : Output

/-- What evaluation leaves as it is. -/
structure Setting where
  library : Library
  /-- Largest nesting depth; `none` for no limit. -/
  maxDepth : Option Nat
  /-- What the caller of the evaluation holds on to. -/
  caller : Held := {}

/-- An application being evaluated. -/
structure CallSite where
  cell : CellId
  /-- Operator and operands as they were when evaluation reached the application. -/
  head : Value
  operands : Value
  env : FrameId

/-- Work that waits for the answer of an evaluation. -/
inductive Waiting where
  /-- A nested evaluation of `expr` in `env` ends here. -/
  | nested (expr : Value) (env : FrameId)
  /-- The operator of an application is being evaluated. -/
  | operator (site : CallSite)
  /-- The operand in `current` of a native procedure is being evaluated; `count` values wait on the
  call stack above the oldest `base` ones. -/
  | operand (procedure : Builtin) (site : CallSite) (base count : Nat) (current : CellId)
  /-- An argument of a closure is being evaluated; operands `rest` follow, the arguments before it
  are in `reversed`. -/
  | argument (closure : ClosureId) (site : CallSite) (rest : Value) (reversed : List Value)
  /-- An expression of a closure's body is being evaluated; `rest` follows. The last one replaces
  the call if `inPlace`. -/
  | body (rest : List Value) (frame : FrameId) (context : Held) (inPlace : Bool)
  /-- Native code goes on with the answer; it holds on to `held`, and the work it runs for to
  `context`. -/
  | native (resume : Except EvalError Value → Native Outcome) (context held : Held)

inductive Control where
  | eval (expr : Value) (env : FrameId)
  /-- Running native code, on behalf of work that holds on to `context`. -/
  | native (program : Native Outcome) (context : Held)
  | answer (result : Except EvalError Value)

structure State where
  machine : Machine
  control : Control
  waiting : List Waiting

namespace Held

def append (a b : Held) : Held := ⟨a.values ++ b.values, a.frames ++ b.frames⟩

def refs (h : Held) : List Ref := h.values.filterMap Value.ref? ++ h.frames.map .frame

end Held

def CallSite.held (site : CallSite) : Held :=
  ⟨[.pair site.cell, site.head, site.operands], [site.env]⟩

def Waiting.held : Waiting → Held
  | nested expr env => ⟨[expr], [env]⟩
  | operator site => site.held
  | operand _ site _ _ current => site.held.append ⟨[.pair current], []⟩
  | argument closure site rest reversed =>
    site.held.append ⟨.closure closure :: rest :: reversed, []⟩
  | body rest frame context _ => context.append ⟨rest, [frame]⟩
  | native _ context held => context.append held

namespace Machine

def count (m : Machine) (event : Counters → Counters) : Machine :=
  { m with counters := m.counters.map event }

def pushCall (m : Machine) (v : Value) : Machine :=
  match m with
  | ⟨store, symbols, calls, depth, counters, output⟩ =>
    let calls := calls.push v
    ⟨store, symbols, calls, depth, counters.map (·.recordStack calls.size), output⟩

def popCalls (m : Machine) (n : Nat) : Except EvalError (List Value) × Machine :=
  match m with
  | ⟨store, symbols, calls, depth, counters, output⟩ =>
    match calls.popFrame n with
    | (values, calls) => (values, ⟨store, symbols, calls, depth, counters, output⟩)

def truncateCalls (m : Machine) (n : Nat) : Machine :=
  match m with
  | ⟨store, symbols, calls, depth, counters, output⟩ =>
    ⟨store, symbols, calls.truncate n, depth, counters, output⟩

def bindArguments (m : Machine) (c : Closure) (args : List Value) :
    Except EvalError FrameId × Machine :=
  match m with
  | ⟨store, symbols, calls, depth, counters, output⟩ =>
    match store.bind c args with
    | (frame, store) => (frame, ⟨store, symbols, calls, depth, counters, output⟩)

def intern (m : Machine) (name : String) : Except EvalError Symbol × Machine :=
  match m with
  | ⟨store, symbols, calls, depth, counters, output⟩ =>
    match symbols.intern name with
    | (.ok x, symbols) => (.ok x, ⟨store, symbols, calls, depth, counters, output⟩)
    | (.error e, symbols) =>
      (.error (.ofSymbolTable e), ⟨store, symbols, calls, depth, counters, output⟩)

def print (m : Machine) (text : String) : Machine :=
  match m with
  | ⟨store, symbols, calls, depth, counters, output⟩ =>
    ⟨store, symbols, calls, depth, counters, output.print text⟩

/-- Everything that a machine and unfinished work refer to. -/
def roots (m : Machine) (caller context : Held) (waiting : List Waiting) : List Ref :=
  caller.refs ++ context.refs ++ m.calls.values.toList.filterMap Value.ref? ++
    waiting.flatMap (fun w => w.held.refs)

end Machine

namespace State

def answer (m : Machine) (waiting : List Waiting) (v : Value) : State :=
  ⟨m, .answer (.ok v), waiting⟩

def fail (m : Machine) (waiting : List Waiting) (e : EvalError) : State :=
  ⟨m, .answer (.error e), waiting⟩

/-- Start a nested evaluation, unless the limit is reached. -/
def nest (setting : Setting) (m : Machine) (waiting : List Waiting) (expr : Value)
    (env : FrameId) : State :=
  match setting.maxDepth with
  | some limit =>
    if limit ≤ m.depth then fail m waiting (.stackOverflow limit) else enterNested m
  | none => enterNested m
where
  enterNested (m : Machine) : State :=
    ⟨{ m with depth := m.depth + 1, counters := m.counters.map (·.recordDepth (m.depth + 1)) },
      .eval expr env, .nested expr env :: waiting⟩

def improperOperands (store : Store) (operands : Value) : EvalError :=
  .badSyntax "application" ("operands must form a proper list: " ++ store.text operands)

def applyBuiltin (setting : Setting) (m : Machine) (waiting : List Waiting) (b : Builtin)
    (args : List Value) (context : Held) : State :=
  match b.arity.check b.name args.length with
  | .ok () =>
    let program : Native Outcome := do return .value (← setting.library.procedure b args)
    ⟨m.count Counters.countBuiltinCall, .native program (context.append ⟨args, []⟩), waiting⟩
  | .error e => fail m waiting e

/-- Evaluate the operands `rest` of a native procedure, then run it. -/
def nextOperand (setting : Setting) (m : Machine) (waiting : List Waiting) (b : Builtin)
    (site : CallSite) (base count : Nat) (rest : Value) : State :=
  match rest with
  | .nil =>
    match m.popCalls count with
    | (.ok args, m) => applyBuiltin setting m waiting b args site.held
    | (.error e, m) => fail m waiting e
  | .pair c =>
    nest setting m (.operand b site base count c :: waiting) (m.store.first c) site.env
  | _ =>
    let e := improperOperands m.store site.operands
    fail (m.truncateCalls base) waiting e

/-- Evaluate the expressions `body` of a closure in `frame`. -/
def nextBody (setting : Setting) (m : Machine) (waiting : List Waiting) (frame : FrameId)
    (context : Held) (inPlace : Bool) (body : List Value) : State :=
  match body with
  | [] => answer m waiting .unspecified
  | [last] =>
    if inPlace then ⟨m, .eval last frame, waiting⟩ else nest setting m waiting last frame
  | expr :: rest => nest setting m (.body rest frame context inPlace :: waiting) expr frame

def applyClosure (setting : Setting) (m : Machine) (waiting : List Waiting) (c : ClosureId)
    (args : List Value) (context : Held) (inPlace : Bool) : State :=
  let closure := m.store.closure c
  match (m.count Counters.countProcedureCall).bindArguments closure args with
  | (.error e, m) => fail m waiting e
  | (.ok frame, m) =>
    if closure.body.isEmpty then
      fail m waiting (.internal ("procedure " ++ closure.displayName ++ " has an empty body"))
    else nextBody setting m waiting frame context inPlace closure.body

/-- Evaluate the operands `rest` of a closure, then call it. -/
def nextArgument (setting : Setting) (m : Machine) (waiting : List Waiting) (c : ClosureId)
    (site : CallSite) (reversed : List Value) (rest : Value) : State :=
  match rest with
  | .nil =>
    applyClosure setting m waiting c reversed.reverse (site.held.append ⟨[.closure c], []⟩) true
  | .pair p =>
    nest setting m (.argument c site (m.store.rest p) reversed :: waiting) (m.store.first p)
      site.env
  | _ => fail m waiting (improperOperands m.store site.operands)

/-- Call any value with evaluated arguments. -/
def call (setting : Setting) (m : Machine) (waiting : List Waiting) (procedure : Value)
    (args : List Value) : State :=
  match procedure with
  | .builtin b => applyBuiltin setting m waiting b args {}
  | .closure c => applyClosure setting m waiting c args {} false
  | other => fail m waiting (m.store.notAProcedure other)

/-- Evaluate an expression as far as to its first nested evaluation. -/
def evalExpr (setting : Setting) (m : Machine) (waiting : List Waiting) (expr : Value)
    (env : FrameId) : State :=
  match expr with
  | .symbol x => ⟨m, .answer (m.store.lookup env x), waiting⟩
  | .pair c =>
    let site : CallSite := ⟨c, m.store.first c, m.store.rest c, env⟩
    nest setting m (.operator site :: waiting) site.head env
  | atom => answer m waiting atom

/-- The operator of an application has been evaluated. -/
def applyHead (setting : Setting) (m : Machine) (waiting : List Waiting) (site : CallSite)
    (head : Value) : State :=
  match head with
  | .builtin b =>
    let base := m.calls.size
    nextOperand setting m waiting b site base 0 site.operands
  | .form f =>
    ⟨m.count Counters.countForm, .native (setting.library.form f site.operands site.env) site.held,
      waiting⟩
  | .closure c => nextArgument setting m waiting c site [] site.operands
  | _ => fail m waiting (m.store.notAProcedure site.head)

/-- The error of an operator: a name that nothing binds is reported as no procedure. -/
def headError (store : Store) (site : CallSite) (e : EvalError) : EvalError :=
  match site.head, e.cause with
  | .symbol _, .unboundVariable _ => (store.notAProcedure site.head).withNote e.message
  | _, _ => e

/-- Hand an answer to the innermost waiting work. -/
def deliver (setting : Setting) (m : Machine) (waiting : List Waiting) (w : Waiting)
    (result : Except EvalError Value) : State :=
  match w with
  | .nested _ _ => ⟨{ m with depth := m.depth - 1 }, .answer result, waiting⟩
  | .native resume context _ => ⟨m, .native (resume result) context, waiting⟩
  | .operator site =>
    match result with
    | .ok head => applyHead setting m waiting site head
    | .error e => fail m waiting (headError m.store site e)
  | .operand b site base count current =>
    match result with
    | .ok v =>
      let m := m.pushCall v
      nextOperand setting m waiting b site base (count + 1) (m.store.rest current)
    | .error e => fail (m.truncateCalls base) waiting e
  | .argument c site rest reversed =>
    match result with
    | .ok v => nextArgument setting m waiting c site (v :: reversed) rest
    | .error e => fail m waiting e
  | .body rest frame context inPlace =>
    match result with
    | .ok _ => nextBody setting m waiting frame context inPlace rest
    | .error e => fail m waiting e

/-- Run native code up to its next question. -/
def runNative (setting : Setting) (m : Machine) (waiting : List Waiting)
    (program : Native Outcome) (context : Held) : State :=
  match m with
  | ⟨store, symbols, calls, depth, counters, output⟩ =>
    match program store with
    | .done (.value v) store =>
      answer ⟨store, symbols, calls, depth, counters, output⟩ waiting v
    | .done (.tail expr env) store =>
      ⟨⟨store, symbols, calls, depth, counters, output⟩, .eval expr env, waiting⟩
    | .fail e store => fail ⟨store, symbols, calls, depth, counters, output⟩ waiting e
    | .endless store =>
      ⟨⟨store, symbols, calls, depth, counters, output⟩, .native Native.endless context, waiting⟩
    | .eval expr env held store resume =>
      nest setting ⟨store, symbols, calls, depth, counters, output⟩
        (.native resume context held :: waiting) expr env
    | .call procedure args held store resume =>
      call setting ⟨store, symbols, calls, depth, counters, output⟩
        (.native resume context held :: waiting) procedure args
    | .intern name store resume =>
      match (⟨store, symbols, calls, depth, counters, output⟩ : Machine).intern name with
      | (x, m) => ⟨m, .native (resume x) context, waiting⟩
    | .print text store resume =>
      ⟨(⟨store, symbols, calls, depth, counters, output⟩ : Machine).print text,
        .native resume context, waiting⟩
    | .isSole c held store resume =>
      let m : Machine := ⟨store, symbols, calls, depth, counters, output⟩
      let sole := m.store.isSoleReference c (m.roots setting.caller (context.append held) waiting)
      ⟨m, .native (resume sole) context, waiting⟩

/-- One step. A state whose answer nobody waits for stays as it is. -/
def step (setting : Setting) (s : State) : State :=
  match s with
  | ⟨m, control, waiting⟩ =>
    match control with
    | .eval expr env => evalExpr setting (m.count Counters.countExpression) waiting expr env
    | .native program context => runNative setting m waiting program context
    | .answer result =>
      match waiting with
      | [] => ⟨m, .answer result, []⟩
      | w :: waiting => deliver setting m waiting w result

def result? (s : State) : Option (Except EvalError Value) :=
  match s.control, s.waiting with
  | .answer result, [] => some result
  | _, _ => none

/-- Take steps until the evaluation is finished, at most `fuel`. -/
def run (setting : Setting) : (fuel : Nat) → State → Option (Except EvalError Value × Machine)
  | 0, _ => none
  | fuel + 1, s =>
    match s.result? with
    | some result => some (result, s.machine)
    | none => run setting fuel (s.step setting)

end State
end MiniScheme
