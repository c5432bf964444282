import MiniScheme.Store.Basic
/-! # Data read from text

A datum is a tree: what reading produces, before it gets pairs in a store.
-/
namespace MiniScheme

/-- What source text denotes. -/
inductive Datum where
  | nil
  | bool (b : Bool)
  | int (n : Int64)
  | float (d : Double)
  | str (text : String)
  | symbol (symbol : Symbol)
  | pair (first rest : Datum)
deriving DecidableEq, Repr, Inhabited

namespace Datum

/-- Put data in front of `tail`, the head of `reversed` directly in front of it. -/
def consAll (tail : Datum) : (reversed : List Datum) → Datum
  | [] => tail
  | d :: ds => consAll (pair d tail) ds

def size : Datum → Nat
  | pair first rest => first.size + rest.size + 1
  | _ => 1

/-- A step in building a datum. -/
inductive Task where
  | build (d : Datum)
  /-- Join the two values built last. -/
  | join

def Task.weight : Task → Nat
  | .build d => 2 * d.size
  | .join => 1

def taskWeight : List Task → Nat
  | [] => 0
  | t :: ts => t.weight + taskWeight ts

def atomValue : Datum → Value
  | nil => .nil
  | bool b => .bool b
  | int n => .int n
  | float d => .float d
  | str text => .str text
  | symbol x => .symbol x
  | pair _ _ => .nil

theorem size_pos (d : Datum) : 0 < d.size := by cases d <;> simp [size]

/-- Carry out the tasks. The values built so far stand on a stack, the last one on top. -/
def assemble (s : Store) : List Task → List Value → Value × Store
  | [], v :: _ => (v, s)
  | [], [] => (.nil, s)
  | .build (.pair first rest) :: ts, vs => assemble s (.build first :: .build rest :: .join :: ts) vs
  | .build atom :: ts, vs => assemble s ts (atom.atomValue :: vs)
  | .join :: ts, rest :: first :: vs =>
    let (v, s) := s.cons first rest
    assemble s ts (v :: vs)
  | .join :: ts, vs => assemble s ts vs
termination_by ts => taskWeight ts
decreasing_by
  · simp only [taskWeight, Task.weight, size]; omega
  · have := size_pos atom
    simp only [taskWeight, Task.weight]; omega
  · simp only [taskWeight, Task.weight]; omega
  · simp only [taskWeight, Task.weight]; omega

end Datum

/-- The value of a datum, its pairs new in the store. -/
def Store.load (s : Store) (d : Datum) : Value × Store := Datum.assemble s [.build d] []

end MiniScheme
