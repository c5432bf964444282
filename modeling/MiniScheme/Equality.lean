import MiniScheme.Store.Basic
/-! # Structural equality

Two values are equal when they unfold to the same tree of atoms. Comparison keeps the pairs of
values still to be compared on a stack, first slots before rest slots, and skips a pair compared
with itself. On two circular structures it may go on for ever: that is the answer `none`, given
when a path has met more combinations of two pairs than there are.

A digest lists the atoms of a value in the order a comparison meets them. Equal values have equal
digests, so a table may look for a value among those with its digest only.
-/
namespace MiniScheme

namespace Equality

/-- Two values to be compared, at most `room` pairs deep. -/
structure Pending where
  left : Value
  right : Value
  room : Nat

/-- Bound on the steps a value takes inside which `room` pairs may be nested. -/
def nestingWeight : (room : Nat) → Nat
  | 0 => 1
  | room + 1 => 3 * nestingWeight room

theorem nestingWeight_pos (room : Nat) : 0 < nestingWeight room := by
  induction room with
  | zero => exact Nat.one_pos
  | succ room ih => rw [nestingWeight]; omega

/-- Bound on the steps left. -/
def pendingWeight : List Pending → Nat
  | [] => 0
  | p :: ps => nestingWeight p.room + pendingWeight ps

def compareAll (s : Store) : List Pending → Option Bool
  | [] => some true
  | ⟨.pair x, .pair y, room⟩ :: rest =>
    if x = y then compareAll s rest
    else
      match room with
      | 0 => none
      | room + 1 =>
        compareAll s (⟨s.first x, s.first y, room⟩ :: ⟨s.rest x, s.rest y, room⟩ :: rest)
  | ⟨a, b, _⟩ :: rest => if a.same b then compareAll s rest else some false
termination_by pending => pendingWeight pending
decreasing_by
  · exact Nat.lt_add_of_pos_left (nestingWeight_pos _)
  · simp only [pendingWeight, nestingWeight]
    have := nestingWeight_pos room
    omega
  · exact Nat.lt_add_of_pos_left (nestingWeight_pos _)

/-- What a value adds to a digest: an atom, or the mark of a pair. -/
inductive Mark where
  | nil
  | bool (b : Bool)
  | int (n : Int64)
  | float (bits : UInt64)
  | str (text : String)
  | symbol (id : Nat)
  | pair
  | builtin (id : Nat)
  | form (id : Nat)
  | closure (index : Nat)
  | unspecified
deriving DecidableEq, Repr

def Mark.of : Value → Mark
  | .nil => .nil
  | .bool b => .bool b
  | .int n => .int n
  | .float d => .float d.bits
  | .str text => .str text
  | .symbol x => .symbol x.id
  | .pair _ => .pair
  | .builtin b => .builtin b.id
  | .form f => .form f.id
  | .closure c => .closure c.index
  | .unspecified => .unspecified

/-- Bound on the steps left. -/
def visitWeight : List (Value × Nat) → Nat
  | [] => 0
  | v :: vs => nestingWeight v.2 + visitWeight vs

/-- Marks of all values still to be visited, after those in `reversed`. -/
def digestAll (s : Store) (reversed : List Mark) : List (Value × Nat) → Option (List Mark)
  | [] => some reversed.reverse
  | (.pair c, room) :: rest =>
    match room with
    | 0 => none
    | room + 1 => digestAll s (.pair :: reversed) ((s.first c, room) :: (s.rest c, room) :: rest)
  | (v, _) :: rest => digestAll s (Mark.of v :: reversed) rest
termination_by visits => visitWeight visits
decreasing_by
  · simp only [visitWeight, nestingWeight]
    have := nestingWeight_pos room
    omega
  · exact Nat.lt_add_of_pos_left (nestingWeight_pos _)

end Equality

namespace Store

/-- Whether `a` and `b` unfold to the same tree; `none` if comparing them never ends. -/
def equal? (s : Store) (a b : Value) : Option Bool :=
  Equality.compareAll s [⟨a, b, s.cells.size * s.cells.size⟩]

/-- The digest of `v`; `none` if listing its atoms never ends. -/
def digest? (s : Store) (v : Value) : Option (List Equality.Mark) :=
  Equality.digestAll s [] [(v, s.cells.size)]

/-- A value in a table keyed by value, with the position it was entered at. -/
structure Keyed where
  digest : List Equality.Mark
  value : Value
  position : Nat

/-- Position of the entry that equals `v`, looked for among those with its digest. -/
def findKeyed (s : Store) (digest : List Equality.Mark) (v : Value) :
    List Keyed → Option (Option Nat)
  | [] => some none
  | entry :: entries =>
    if entry.digest = digest then
      match s.equal? entry.value v with
      | some true => some (some entry.position)
      | some false => s.findKeyed digest v entries
      | none => none
    else s.findKeyed digest v entries

/-- Enter `values` into a table keyed by value and answer, for each, the position of the entry it
was found under. -/
def firstPositions (s : Store) (table : List Keyed) (position : Nat) :
    List Value → Option (List Nat)
  | [] => some []
  | v :: vs =>
    match s.digest? v with
    | none => none
    | some digest =>
      match s.findKeyed digest v table with
      | none => none
      | some (some found) => (s.firstPositions table (position + 1) vs).map (found :: ·)
      | some none =>
        (s.firstPositions (⟨digest, v, position⟩ :: table) (position + 1) vs).map (position :: ·)

/-- For each value, the position of the first one that equals it. -/
def dedupe (s : Store) (values : List Value) : Option (List Nat) := s.firstPositions [] 0 values

end Store
end MiniScheme
