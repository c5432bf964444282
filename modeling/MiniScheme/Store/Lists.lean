import MiniScheme.Store.Basic
/-! # Lists in the store

Following rest slots from a value, one meets the empty list, some other atom, or pairs for ever.
-/
namespace MiniScheme

/-- What following the rest slots of a value comes to. -/
inductive Spine where
  /-- The empty list, after these elements. -/
  | proper (items : List Value)
  /-- Another atom, after these elements. -/
  | improper (items : List Value) (tail : Value)
  /-- Nothing: the pairs go round in a circle. -/
  | circular
deriving DecidableEq, Repr

namespace Store

/-- Follow at most `steps` values, the elements met so far in `reversed`. -/
def spineWithin (s : Store) : (steps : Nat) → (reversed : List Value) → Value → Spine
  | 0, _, _ => .circular
  | steps + 1, reversed, .pair c => s.spineWithin steps (s.first c :: reversed) (s.rest c)
  | _ + 1, reversed, .nil => .proper reversed.reverse
  | _ + 1, reversed, tail => .improper reversed.reverse tail

/-- Follow the rest slots of `v`. A path longer than the number of pairs meets some pair twice. -/
def spine (s : Store) (v : Value) : Spine := s.spineWithin (s.cells.size + 1) [] v

/-- Two runners on the rest slots, `fast` two pairs for each of `slow`. They meet only on a
circle. -/
def lengthWithin (s : Store) : (steps length : Nat) → (slow fast : Value) → Option Nat
  | 0, _, _, _ => none
  | steps + 1, length, slow, fast =>
    match fast with
    | .nil => some length
    | .pair c =>
      match s.rest c with
      | .nil => some (length + 1)
      | .pair c' =>
        match slow with
        | .pair d =>
          let slow := s.rest d
          let fast := s.rest c'
          if slow.isPair && slow.same fast then none
          else s.lengthWithin steps (length + 2) slow fast
        | _ => none
      | _ => none
    | _ => none

/-- Length of a proper list; `none` for anything else. -/
def listLength (s : Store) (v : Value) : Option Nat := s.lengthWithin (s.cells.size + 1) 0 v v

def isList (s : Store) (v : Value) : Bool := (s.listLength v).isSome

end Store
end MiniScheme
