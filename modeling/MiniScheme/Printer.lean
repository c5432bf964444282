import Std.Data.HashSet
import MiniScheme.Store.Basic
import MiniScheme.Text.Quoted
/-! # Printing values

A list prints between parentheses, with a point before a tail other than the empty list. A pair met
again while a list that contains it is still open prints as `...`, so printing ends on circular
structure too; what is shared without a circle prints in full each time. A list or the empty list
at top level has a quote mark in front.

The walk keeps what is left to do on a stack. Each value on it carries the number of further lists
that may be opened inside it; the weight of the stack, in which that number is an exponent, falls
with every step.
-/
namespace MiniScheme

inductive PrintStyle where
  /-- Quoted and escaped, as in source text. -/
  | written
  /-- As they are. -/
  | displayed
deriving DecidableEq, Repr

namespace Printer

/-- Text of a value that is not a pair. -/
def atomText (s : Store) (style : PrintStyle) : Value → String
  | .nil => "()"
  | .bool true => "#t"
  | .bool false => "#f"
  | .int n => toString n.toInt
  | .float d => d.text
  | .str text =>
    match style with
    | .written => Text.quoted text
    | .displayed => text
  | .symbol x => x.name
  | .builtin b => "#<procedure:" ++ b.name ++ ">"
  | .closure c =>
    match (s.closure c).name with
    | some name => "#<procedure:" ++ name ++ ">"
    | none => "#<procedure>"
  | .form f => "#<syntax:" ++ f.name ++ ">"
  | .unspecified => "#<void>"
  | .pair _ => "(...)"

/-- A run of pairs that are being opened together. -/
structure Run where
  /-- All open pairs, those of the run included. -/
  opened : Std.HashSet CellId
  /-- The pairs of the run. -/
  cells : List CellId
  /-- Their first slots, the last one first. -/
  elements : List Value
  /-- The rest slot of the last one. -/
  tail : Value

/-- Open pairs along the rest slots, at most `steps`, up to one that is open already. -/
def Run.extend (s : Store) : (steps : Nat) → Run → Run
  | 0, r => r
  | steps + 1, r =>
    match r.tail with
    | .pair c =>
      if r.opened.contains c then r
      else Run.extend s steps
        { opened := r.opened.insert c
          cells := c :: r.cells
          elements := s.first c :: r.elements
          tail := s.rest c }
    | _ => r

inductive Item where
  /-- A value, inside which `room` lists may be opened. -/
  | value (v : Value) (room : Nat)
  | text (t : String)
  /-- The end of a list, whose pairs are no longer open. -/
  | close (cells : List CellId)

/-- The elements of a list with blanks between them, then `after`. -/
def spread (room : Nat) : (reversed : List Value) → (after : List Item) → List Item
  | [], after => after
  | [v], after => .value v room :: after
  | v :: w :: vs, after => spread room (w :: vs) (.text " " :: .value v room :: after)

/-- What a list prints after its opening parenthesis. -/
def listItems (room : Nat) (r : Run) (after : List Item) : List Item :=
  let closing := .text ")" :: .close r.cells :: after
  let ending :=
    if r.tail.isNull then closing else .text " . " :: .value r.tail room :: closing
  spread room r.elements ending

/-- Number of steps that printing a value can take, where a list has at most `n` elements and
`room` lists may be opened one inside the other. -/
def roomWeight (n : Nat) : (room : Nat) → Nat
  | 0 => 2 * n + 6
  | room + 1 => (2 * n + 6) * roomWeight n room

/-- Number of steps that printing an item can take. -/
def Item.weight (n : Nat) : Item → Nat
  | .value _ room => roomWeight n room
  | .text _ => 1
  | .close _ => 1

/-- Weight of all that is left to print. -/
def stackWeight (n : Nat) : List Item → Nat
  | [] => 0
  | item :: items => item.weight n + stackWeight n items

theorem roomWeight_pos (n room : Nat) : 0 < roomWeight n room := by
  induction room with
  | zero => rw [roomWeight]; omega
  | succ room ih => exact Nat.mul_pos (by omega) ih

theorem weight_pos (n : Nat) (item : Item) : 0 < item.weight n := by
  cases item with
  | value v room => exact roomWeight_pos n room
  | text t => exact Nat.one_pos
  | close cells => exact Nat.one_pos

theorem stackWeight_spread (n room : Nat) (reversed : List Value) (after : List Item) :
    stackWeight n (spread room reversed after) ≤
      reversed.length * (roomWeight n room + 1) + stackWeight n after := by
  fun_induction spread room reversed after with
  | case1 after => simp only [List.length_nil, Nat.zero_mul, Nat.zero_add, Nat.le_refl]
  | case2 after v =>
    simp only [stackWeight, Item.weight, List.length_cons, List.length_nil, Nat.zero_add,
      Nat.one_mul]
    omega
  | case3 after v w vs ih =>
    simp only [stackWeight, Item.weight, List.length_cons, Nat.add_mul] at ih ⊢
    omega

theorem length_elements_extend (s : Store) (steps : Nat) (r : Run) :
    (Run.extend s steps r).elements.length ≤ r.elements.length + steps := by
  fun_induction Run.extend s steps r with
  | case1 r => exact Nat.le_refl _
  | case2 steps r c _ hopen => omega
  | case3 steps r c _ hopen ih => simp only [List.length_cons] at ih; omega
  | case4 steps r h => omega

theorem stackWeight_listItems (n room : Nat) (r : Run) (after : List Item)
    (h : r.elements.length ≤ n) :
    stackWeight n (listItems room r after) < roomWeight n (room + 1) + stackWeight n after := by
  have hpos := roomWeight_pos n room
  have hending : stackWeight n (if r.tail.isNull then .text ")" :: .close r.cells :: after
      else .text " . " :: .value r.tail room :: .text ")" :: .close r.cells :: after) ≤
      roomWeight n room + 3 + stackWeight n after := by
    split <;> simp only [stackWeight, Item.weight] <;> omega
  have hspread := stackWeight_spread n room r.elements
    (if r.tail.isNull then .text ")" :: .close r.cells :: after
      else .text " . " :: .value r.tail room :: .text ")" :: .close r.cells :: after)
  have hlen : r.elements.length * (roomWeight n room + 1) ≤ n * (roomWeight n room + 1) :=
    Nat.mul_le_mul_right _ h
  have hlarge : roomWeight n (room + 1) = 2 * (n * roomWeight n room) + 6 * roomWeight n room := by
    rw [roomWeight, Nat.add_mul, Nat.mul_assoc]
  have hn : n ≤ n * roomWeight n room := Nat.le_mul_of_pos_right n hpos
  simp only [Nat.mul_add, Nat.mul_one] at hlen hspread
  simp only [listItems]
  omega

/-- Print all items, appending to `out`. -/
def render (s : Store) (style : PrintStyle) (out : String) (opened : Std.HashSet CellId) :
    List Item → String
  | [] => out
  | .text t :: items => render s style (out ++ t) opened items
  | .close cells :: items => render s style out (cells.foldl (·.erase ·) opened) items
  | .value (.pair c) room :: items =>
    if opened.contains c then render s style (out ++ "...") opened items
    else
      match room with
      | 0 => render s style (out ++ "...") opened items
      | room + 1 =>
        let run := Run.extend s s.cells.size ⟨opened, [], [], .pair c⟩
        render s style (out ++ "(") run.opened (listItems room run items)
  | .value v _ :: items => render s style (out ++ atomText s style v) opened items
termination_by items => stackWeight s.cells.size items
decreasing_by
  · exact Nat.lt_add_of_pos_left (weight_pos _ _)
  · exact Nat.lt_add_of_pos_left (weight_pos _ _)
  · exact Nat.lt_add_of_pos_left (weight_pos _ _)
  · exact Nat.lt_add_of_pos_left (weight_pos _ _)
  · exact stackWeight_listItems _ _ _ _ (Nat.le_trans (length_elements_extend _ _ _) (by simp only [List.length_nil, Nat.zero_add, Nat.le_refl]))
  · exact Nat.lt_add_of_pos_left (weight_pos _ _)

end Printer

def Store.print (s : Store) (style : PrintStyle) (v : Value) : String :=
  match v with
  | .pair _ => Printer.render s style "'" ∅ [.value v s.cells.size]
  | .nil => "'()"
  | atom => Printer.atomText s style atom

/-- Text of `v` as source would have it. -/
def Store.text (s : Store) (v : Value) : String := s.print .written v

/-- Text of `v` with its strings unquoted. -/
def Store.displayText (s : Store) (v : Value) : String := s.print .displayed v

end MiniScheme
