import MiniScheme.Equality
import MiniScheme.Store.Environment
import MiniScheme.Store.Errors
/-! # Native code

The bodies of native procedures and the rules of special forms work on the store, and ask the
evaluator for the rest: to evaluate, to call, to intern, to print, and whether a closure is held by
nobody else. Such code is data: it has finished, or it asks something and says how to go on with
the answer. The evaluator's own state is out of its reach.

While evaluation runs on its behalf, native code still holds on to values and frames; it names them
with the question. They matter to nothing but the question who holds a closure.
-/
namespace MiniScheme

/-- Values and frames that unfinished work refers to. -/
structure Held where
  values : List Value := []
  frames : List FrameId := []
deriving Inhabited

/-- What the rule of a special form comes to. -/
inductive Outcome where
  | value (v : Value)
  /-- The value of `expr` in `env`, evaluated in place of the form. -/
  | tail (expr : Value) (env : FrameId)

/-- Native code between two steps. -/
inductive Interaction (α : Type) where
  | done (a : α) (store : Store)
  | fail (e : EvalError) (store : Store)
  /-- Works for ever. -/
  | endless (store : Store)
  | eval (expr : Value) (env : FrameId) (held : Held) (store : Store)
      (resume : Except EvalError Value → Store → Interaction α)
  | call (procedure : Value) (args : List Value) (held : Held) (store : Store)
      (resume : Except EvalError Value → Store → Interaction α)
  | intern (name : String) (store : Store)
      (resume : Except EvalError Symbol → Store → Interaction α)
  | print (text : String) (store : Store) (resume : Store → Interaction α)
  /-- Whether nothing but the asking code and `closure`'s own value holds the closure. -/
  | isSole (closure : ClosureId) (held : Held) (store : Store)
      (resume : Bool → Store → Interaction α)

namespace Interaction

variable {α β : Type}

def bind : Interaction α → (α → Store → Interaction β) → Interaction β
  | done a store, f => f a store
  | fail e store, _ => fail e store
  | endless store, _ => endless store
  | eval expr env held store resume, f =>
    eval expr env held store (fun answer store => (resume answer store).bind f)
  | call procedure args held store resume, f =>
    call procedure args held store (fun answer store => (resume answer store).bind f)
  | intern name store resume, f =>
    intern name store (fun answer store => (resume answer store).bind f)
  | print text store resume, f => print text store (fun store => (resume store).bind f)
  | isSole closure held store resume, f =>
    isSole closure held store (fun answer store => (resume answer store).bind f)

/-- The end of a question that may have failed. -/
def ofExcept (answer : Except EvalError α) (store : Store) : Interaction α :=
  match answer with
  | .ok a => done a store
  | .error e => fail e store

end Interaction

/-- Native code that waits for the store. -/
def Native (α : Type) : Type := Store → Interaction α

namespace Native

variable {α : Type}

instance : Monad Native where
  pure a := fun store => .done a store
  bind x f := fun store => (x store).bind f

def fail (e : EvalError) : Native α := fun store => .fail e store

def endless : Native α := fun store => .endless store

def read (f : Store → α) : Native α := fun store => .done (f store) store

def change (f : Store → Store) : Native Unit := fun store => .done () (f store)

/-- Change the store and keep a result. -/
def update (f : Store → α × Store) : Native α := fun store =>
  match f store with
  | (a, store) => .done a store

def ofExcept (answer : Except EvalError α) : Native α := fun store =>
  Interaction.ofExcept answer store

/-- Evaluate `expr` in `env`, holding on to `held` meanwhile. -/
def eval (expr : Value) (env : FrameId) (held : Held) : Native Value := fun store =>
  .eval expr env held store Interaction.ofExcept

/-- Call `procedure`, holding on to `held` meanwhile. -/
def call (procedure : Value) (args : List Value) (held : Held) : Native Value := fun store =>
  .call procedure args held store Interaction.ofExcept

def intern (name : String) : Native Symbol := fun store =>
  .intern name store Interaction.ofExcept

def print (text : String) : Native Unit := fun store =>
  .print text store (fun store => .done () store)

def isSole (closure : ClosureId) (held : Held) : Native Bool := fun store =>
  .isSole closure held store (fun answer store => .done answer store)

/-- Text of a value as source would have it. -/
def text (v : Value) : Native String := read (fun store => store.text v)

def list (items : List Value) : Native Value := update (fun store => store.list items)

/-- The elements of a list; of one that does not end properly, `improper` of its tail. -/
def elements (v : Value) (improper : Value → Native (List Value)) : Native (List Value) := do
  match ← read (fun store => store.spine v) with
  | .proper items => pure items
  | .improper _ tail => improper tail
  | .circular => endless

end Native

/-- Body of a native procedure: evaluated arguments to a value. -/
abbrev NativeProcedure := List Value → Native Value

/-- Rule of a special form: operands as written and the environment to an outcome. -/
abbrev NativeForm := Value → FrameId → Native Outcome

/-- Native code that values refer to by position. -/
structure Library where
  procedures : Array NativeProcedure := #[]
  forms : Array NativeForm := #[]

namespace Library

def addProcedure (l : Library) (name : String) (arity : Arity) (body : NativeProcedure) :
    Value × Library :=
  (.builtin ⟨l.procedures.size, name, arity⟩, { l with procedures := l.procedures.push body })

def addForm (l : Library) (name : String) (rule : NativeForm) : Value × Library :=
  (.form ⟨l.forms.size, name⟩, { l with forms := l.forms.push rule })

def procedure (l : Library) (b : Builtin) : NativeProcedure :=
  l.procedures.getD b.id (fun _ => Native.fail (.internal ("no body for " ++ b.name)))

def form (l : Library) (f : SpecialForm) : NativeForm :=
  l.forms.getD f.id (fun _ _ => Native.fail (.internal ("no rule for " ++ f.name)))

end Library

end MiniScheme
