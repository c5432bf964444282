import MiniScheme.Error
/-! # Call stack

Evaluated arguments of native procedures wait here until all of a call are there; then they are
taken off together, in the order they were pushed.
-/
namespace MiniScheme

/-- Arguments waiting for their call. -/
structure CallStack where
  /-- Waiting values, the oldest first. -/
  values : Array Value
  /-- The largest number of values that ever waited. -/
  peak : Nat
deriving DecidableEq, Inhabited

namespace CallStack

def empty : CallStack := ⟨#[], 0⟩

def size (s : CallStack) : Nat := s.values.size

def isEmpty (s : CallStack) : Bool := s.values.isEmpty

def push (s : CallStack) (v : Value) : CallStack :=
  match s with
  | ⟨values, peak⟩ =>
    let values := values.push v
    ⟨values, max peak values.size⟩

def pop (s : CallStack) : Option Value × CallStack :=
  (s.values.back?, { s with values := s.values.pop })

/-- Keep the oldest `n` values. -/
def truncate (s : CallStack) (n : Nat) : CallStack := { s with values := s.values.shrink n }

/-- Take the newest `n` values off, oldest first. Asking for more than there are changes
nothing. -/
def popFrame (s : CallStack) (n : Nat) : Except EvalError (List Value) × CallStack :=
  if n ≤ s.values.size then
    (.ok (s.values.extract (s.values.size - n)).toList, s.truncate (s.values.size - n))
  else (.error (.callStackUnderflow n s.values.size), s)

@[simp] theorem toList_push (s : CallStack) (v : Value) :
    (s.push v).values.toList = s.values.toList ++ [v] := by
  simp [push]

@[simp] theorem toList_truncate (s : CallStack) (n : Nat) :
    (s.truncate n).values.toList = s.values.toList.take n :=
  Array.toList_shrink

theorem truncate_of_le {s : CallStack} {n : Nat} (h : s.values.size ≤ n) : s.truncate n = s := by
  obtain ⟨values, peak⟩ := s
  simp only [truncate, Array.shrink_eq_take, Array.take_eq_extract, mk.injEq, and_true]
  exact Array.extract_eq_self_of_le h

theorem popFrame_append {s : CallStack} {below args : List Value}
    (h : s.values.toList = below ++ args) :
    s.popFrame args.length = (.ok args, s.truncate below.length) := by
  have hsize : s.values.size = below.length + args.length := by
    rw [← Array.length_toList, h, List.length_append]
  rw [popFrame, if_pos (by omega), hsize, Nat.add_sub_cancel]
  simp [h]

end CallStack
end MiniScheme
