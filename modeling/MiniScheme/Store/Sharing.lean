import MiniScheme.Store.Environment
/-! # Who holds a closure

A store never forgets, but what evaluation still refers to is only part of it. References are
counted: those from roots, and those from objects that are themselves referred to. An object whose
count is zero is given up and its references with it, so in the end the objects with a count are
those that a root reaches and those that a circle of references reaches. A closure is held by its
own value alone if its count is then one. References to what is not in the store do not count.
-/
namespace MiniScheme

inductive Ref where
  | cell (c : CellId)
  | frame (e : FrameId)
  | closure (c : ClosureId)
deriving DecidableEq, Repr

/-- What a value refers to. -/
def Value.ref? : Value → Option Ref
  | .pair c => some (.cell c)
  | .closure c => some (.closure c)
  | _ => none

namespace Store

def has (s : Store) : Ref → Bool
  | .cell c => c.index < s.cells.size
  | .frame e => e.index < s.frames.size
  | .closure c => c.index < s.closures.size

/-- The references in an object, once for each. -/
def mentions (s : Store) : Ref → List Ref
  | .cell c => [s.first c, s.rest c].filterMap Value.ref?
  | .frame e =>
    (s.frame e).parent.toList.map .frame ++
      (s.frame e).bindings.filterMap (fun b => b.2.ref?)
  | .closure c => .frame (s.closure c).env :: (s.closure c).body.filterMap Value.ref?

/-- What an object refers to, once for each reference. -/
def refs (s : Store) (r : Ref) : List Ref := (s.mentions r).filter s.has

def slot (s : Store) : Ref → Nat
  | .cell c => c.index
  | .frame e => s.cells.size + e.index
  | .closure c => s.cells.size + s.frames.size + c.index

def objectCount (s : Store) : Nat := s.cells.size + s.frames.size + s.closures.size

def objects (s : Store) : List Ref :=
  (List.range s.cells.size).map (fun i => .cell ⟨i⟩) ++
    (List.range s.frames.size).map (fun i => .frame ⟨i⟩) ++
    (List.range s.closures.size).map (fun i => .closure ⟨i⟩)

def countRefs (s : Store) (counts : Array Nat) (refs : List Ref) : Array Nat :=
  refs.foldl (fun counts r => counts.modify (s.slot r) (· + 1)) counts

/-- Take back these references; what is left without any joins `unheld`. -/
def dropRefs (s : Store) : (refs unheld : List Ref) → (counts : Array Nat) → List Ref × Array Nat
  | [], unheld, counts => (unheld, counts)
  | r :: refs, unheld, counts =>
    let left := counts.getD (s.slot r) 0 - 1
    s.dropRefs refs (if left = 0 then r :: unheld else unheld)
      (counts.setIfInBounds (s.slot r) left)

/-- Give up unheld objects, at most `steps`. -/
def giveUp (s : Store) : (steps : Nat) → (unheld : List Ref) → (counts : Array Nat) → Array Nat
  | 0, _, counts => counts
  | _ + 1, [], counts => counts
  | steps + 1, r :: unheld, counts =>
    let (unheld, counts) := s.dropRefs (s.refs r) unheld counts
    s.giveUp steps unheld counts

/-- Number of references to each object from `roots` and from objects that are referred to. -/
def referenceCounts (s : Store) (roots : List Ref) : Array Nat :=
  let counts := s.countRefs (Array.replicate s.objectCount 0) (roots.filter s.has)
  let counts := s.objects.foldl (fun counts r => s.countRefs counts (s.refs r)) counts
  let unheld := s.objects.filter (fun r => counts.getD (s.slot r) 0 == 0)
  s.giveUp s.objectCount unheld counts

/-- Whether one value of closure `c` is all that refers to it, besides which only `roots` refer to
anything. -/
def isSoleReference (s : Store) (c : ClosureId) (roots : List Ref) : Bool :=
  (s.referenceCounts (.closure c :: roots)).getD (s.slot (.closure c)) 0 == 1

end Store
end MiniScheme
