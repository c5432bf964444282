import MiniScheme.Value
/-! # Store

All mutable things: pairs, environment frames and closures, each in an array where a reference is
an index. Nothing is ever removed. The parent of a frame is always an older frame.
-/
namespace MiniScheme

structure Cell where
  first : Value
  rest : Value
deriving DecidableEq, Repr, Inhabited

inductive Formals where
  /-- Exactly these. -/
  | fixed (names : List Symbol)
  /-- At least these; the remaining arguments form a list bound to `rest`. -/
  | variadic (names : List Symbol) (rest : Symbol)
deriving DecidableEq, Repr, Inhabited

/-- A procedure with the frame it was made in. -/
structure Closure where
  name : Option String
  formals : Formals
  body : List Value
  env : FrameId
deriving DecidableEq, Repr, Inhabited

/-- One frame of an environment. -/
structure Frame where
  /-- Bindings, at most one per symbol. -/
  bindings : List (Symbol × Value)
  /-- The enclosing frame; the outermost frame has none. -/
  parent : Option FrameId
deriving DecidableEq, Repr, Inhabited

/-- Pairs, frames and closures. -/
structure Store where
  cells : Array Cell
  frames : Array Frame
  closures : Array Closure
deriving DecidableEq, Inhabited

namespace Formals

def arity : Formals → Arity
  | fixed names => .exact names.length
  | variadic names _ => .atLeast names.length

end Formals

namespace Closure

def displayName (c : Closure) : String := c.name.getD "lambda"

end Closure

namespace Store

def empty : Store := ⟨#[], #[], #[]⟩

def cell (s : Store) (c : CellId) : Cell := s.cells.getD c.index ⟨.nil, .nil⟩

def first (s : Store) (c : CellId) : Value := (s.cell c).first

def rest (s : Store) (c : CellId) : Value := (s.cell c).rest

def closure (s : Store) (c : ClosureId) : Closure :=
  s.closures.getD c.index ⟨none, .fixed [], [], ⟨0⟩⟩

def cons (s : Store) (first rest : Value) : Value × Store :=
  (.pair ⟨s.cells.size⟩, { s with cells := s.cells.push ⟨first, rest⟩ })

def setFirst (s : Store) (c : CellId) (v : Value) : Store :=
  { s with cells := s.cells.modify c.index (fun cell => { cell with first := v }) }

def setRest (s : Store) (c : CellId) (v : Value) : Store :=
  { s with cells := s.cells.modify c.index (fun cell => { cell with rest := v }) }

/-- Put pairs in front of `tail`, the head of `reversed` directly in front of it. -/
def consAll (s : Store) (tail : Value) : (reversed : List Value) → Value × Store
  | [] => (tail, s)
  | v :: vs =>
    let (list, s) := s.cons v tail
    s.consAll list vs

/-- A new list of `items` that ends in `tail`. -/
def listWithTail (s : Store) (items : List Value) (tail : Value) : Value × Store :=
  s.consAll tail items.reverse

def list (s : Store) (items : List Value) : Value × Store := s.listWithTail items .nil

def newClosure (s : Store) (c : Closure) : ClosureId × Store :=
  (⟨s.closures.size⟩, { s with closures := s.closures.push c })

def nameClosure (s : Store) (id : ClosureId) (name : String) : Store :=
  { s with closures := s.closures.modify id.index (fun c => { c with name := some name }) }

end Store
end MiniScheme
