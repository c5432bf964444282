import MiniScheme.Error
import MiniScheme.Store.Basic
/-! # Environments

An environment is a frame together with the frames that enclose it. A variable belongs to the first
frame on the way outward that binds it; `define` binds in the frame itself, `assign` changes the
binding that look-up finds.
-/
namespace MiniScheme

namespace Frame

def get? (f : Frame) (x : Symbol) : Option Value :=
  (f.bindings.find? (fun b => b.1.same x)).map (·.2)

def binds (f : Frame) (x : Symbol) : Bool := f.bindings.any (fun b => b.1.same x)

def replace (f : Frame) (x : Symbol) (v : Value) : Frame :=
  { f with bindings := f.bindings.map (fun b => if b.1.same x then (b.1, v) else b) }

/-- Bind `x`, in place of an earlier binding if there is one. -/
def put (f : Frame) (x : Symbol) (v : Value) : Frame :=
  if f.binds x then f.replace x v else { f with bindings := (x, v) :: f.bindings }

end Frame

namespace Store

def frame (s : Store) (e : FrameId) : Frame := s.frames.getD e.index ⟨[], none⟩

def newFrame (s : Store) (parent : Option FrameId) : FrameId × Store :=
  (⟨s.frames.size⟩, { s with frames := s.frames.push ⟨[], parent⟩ })

/-- A new empty frame inside `e`. -/
def child (s : Store) (e : FrameId) : FrameId × Store := s.newFrame (some e)

def modifyFrame (s : Store) (e : FrameId) (f : Frame → Frame) : Store :=
  { s with frames := s.frames.modify e.index f }

/-- Bind `x` in frame `e`. -/
def define (s : Store) (e : FrameId) (x : Symbol) (v : Value) : Store :=
  s.modifyFrame e (fun f => f.put x v)

/-- The first frame that binds `x`, from `e` outward over at most `steps` frames. -/
def ownerWithin (s : Store) (x : Symbol) : (steps : Nat) → FrameId → Option FrameId
  | 0, _ => none
  | steps + 1, e =>
    if (s.frame e).binds x then some e
    else match (s.frame e).parent with
      | some parent => s.ownerWithin x steps parent
      | none => none

/-- The frame that `x` belongs to, seen from `e`. A frame has fewer frames around it than its
index says. -/
def owner (s : Store) (e : FrameId) (x : Symbol) : Option FrameId :=
  s.ownerWithin x (e.index + 1) e

/-- Value of `x` in the first frame that binds it, from `e` outward over at most `steps` frames. -/
def lookupWithin (s : Store) (x : Symbol) : (steps : Nat) → FrameId → Option Value
  | 0, _ => none
  | steps + 1, e =>
    match (s.frame e).get? x with
    | some v => some v
    | none =>
      match (s.frame e).parent with
      | some parent => s.lookupWithin x steps parent
      | none => none

def lookup (s : Store) (e : FrameId) (x : Symbol) : Except EvalError Value :=
  match s.lookupWithin x (e.index + 1) e with
  | some v => .ok v
  | none => .error (.unboundVariable x.name)

/-- Change the binding of `x` seen from `e`. -/
def assign (s : Store) (e : FrameId) (x : Symbol) (v : Value) : Except EvalError Unit × Store :=
  match s.owner e x with
  | some owner => (.ok (), s.modifyFrame owner (fun f => f.replace x v))
  | none => (.error (.unboundVariable x.name), s)

/-- Number of frames around `e`, counting at most `steps`. -/
def depthWithin (s : Store) : (steps : Nat) → FrameId → Nat
  | 0, _ => 0
  | steps + 1, e =>
    match (s.frame e).parent with
    | some parent => s.depthWithin steps parent + 1
    | none => 0

def depth (s : Store) (e : FrameId) : Nat := s.depthWithin (e.index + 1) e

def isGlobal (s : Store) (e : FrameId) : Bool := (s.frame e).parent.isNone

def defineAll (s : Store) (e : FrameId) : List (Symbol × Value) → Store
  | [] => s
  | (x, v) :: bindings => (s.define e x v).defineAll e bindings

/-- A new frame inside `e` that binds `formals` to `args`. -/
def extend (s : Store) (e : FrameId) (formals : Formals) (args : List Value) :
    Except EvalError FrameId × Store :=
  if formals.arity.accepts args.length then
    let (frame, s) := s.child e
    match formals with
    | .fixed names => (.ok frame, s.defineAll frame (names.zip args))
    | .variadic names rest =>
      let (extra, s) := s.list (args.drop names.length)
      (.ok frame, (s.defineAll frame (names.zip args)).define frame rest extra)
  else (.error (.arity "" formals.arity args.length), s)

/-- A new frame for a call of closure `c` with `args`. -/
def bind (s : Store) (c : Closure) (args : List Value) : Except EvalError FrameId × Store :=
  match c.formals.arity.check c.displayName args.length with
  | .ok () => s.extend c.env c.formals args
  | .error e => (.error e, s)

def describeFrame (s : Store) (e : FrameId) : String :=
  "Environment \x7b depth: " ++ toString (s.depth e) ++ ", bindings: " ++
    toString (s.frame e).bindings.length ++ " \x7d"

end Store
end MiniScheme
