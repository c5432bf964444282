import MiniScheme.Reader.Basic
/-! # What one token leads to

A step looks at the first character of a token and at whether the token is a lone point, and does one
of a few things. They are listed here with all that each of them depends on. What every step keeps
and what a step can find wrong is proved case by case; and what a step at a given token comes to is
the case that applies.
-/
namespace MiniScheme

open Text (Cursor)

theorem Text.Cursor.peek_of_nextIsLoneDot {c : Cursor} (h : c.nextIsLoneDot = true) :
    c.peek = '.' := by
  unfold nextIsLoneDot startsLoneDot at h
  split at h
  · next hcs => exact peek_of_upcoming hcs
  · next hcs => exact peek_of_upcoming hcs
  · contradiction

namespace Reader

structure AtAtom (c : Cursor) : Prop where
  notOpen : c.peek ≠ '('
  notQuote : c.peek ≠ '\''
  notClose : c.peek ≠ ')'
  notPoint : c.nextIsLoneDot = false

theorem atAtom_of_string {c : Cursor} (h : c.peek = '"') : AtAtom c := by
  refine ⟨by rw [h]; decide, by rw [h]; decide, by rw [h]; decide, ?_⟩
  rw [Bool.eq_false_iff]
  intro hpoint
  have hpeek := Cursor.peek_of_nextIsLoneDot hpoint
  rw [h] at hpeek
  contradiction

/-- The token at the cursor leads to this reading. -/
inductive StepsTo (r : Reader) (symbols : SymbolTable) (stack : List Unclosed) :
    Reading Progress → Prop
  | opened (here : r.cursor.peek = '(') :
    StepsTo r symbols stack
      ⟨.ok (.inside (.list [] :: stack)), { r with cursor := r.cursor.next.2 }, symbols⟩
  | quoted (here : r.cursor.peek = '\'') :
    StepsTo r symbols stack
      ⟨.ok (.inside (.quotation :: stack)), { r with cursor := r.cursor.next.2 }, symbols⟩
  | closed (here : r.cursor.peek = ')') {d : Datum} {outer : List Unclosed}
    (form : close r.cursor.line stack = .ok (d, outer)) :
    StepsTo r symbols stack ({ r with cursor := r.cursor.next.2 : Reader }.complete symbols outer d)
  | unclosed (here : r.cursor.peek = ')') {e : ReadError}
    (fault : close r.cursor.line stack = .error e) :
    StepsTo r symbols stack ⟨.error e, { r with cursor := r.cursor.next.2 }, symbols⟩
  | dotted (here : r.cursor.nextIsLoneDot = true) {stack' : List Unclosed}
    (form : dot r.cursor.line stack = .ok stack') :
    StepsTo r symbols stack ⟨.ok (.inside stack'), { r with cursor := r.cursor.next.2 }, symbols⟩
  | misplaced (here : r.cursor.nextIsLoneDot = true) {e : ReadError}
    (fault : dot r.cursor.line stack = .error e) :
    StepsTo r symbols stack ⟨.error e, { r with cursor := r.cursor.next.2 }, symbols⟩
  | atom (here : AtAtom r.cursor) {d : Datum} {c : Cursor} {symbols' : SymbolTable}
    (atom : readAtom r.cursor symbols = ⟨.ok d, c, symbols'⟩) :
    StepsTo r symbols stack ({ r with cursor := c : Reader }.complete symbols' stack d)
  | noAtom (here : AtAtom r.cursor) {e : ReadError} {c : Cursor} {symbols' : SymbolTable}
    (fault : readAtom r.cursor symbols = ⟨.error e, c, symbols'⟩) :
    StepsTo r symbols stack ⟨.error e, { r with cursor := c }, symbols'⟩

variable {r : Reader} {symbols : SymbolTable} {stack : List Unclosed} {reading : Reading Progress}

/-- Every step is one of these. -/
theorem stepsTo (r : Reader) (symbols : SymbolTable) (stack : List Unclosed) :
    StepsTo r symbols stack (r.step symbols stack) := by
  unfold step
  dsimp only
  split
  · next hopen => exact .opened hopen
  next hopen =>
  split
  · next hquote => exact .quoted hquote
  next hquote =>
  split
  · next hclose =>
    split
    · next hform => exact .closed hclose hform
    · next hfault => exact .unclosed hclose hfault
  next hclose =>
  split
  · next hdot =>
    split
    · next hform => exact .dotted hdot hform
    · next hfault => exact .misplaced hdot hfault
  next hdot =>
  have hatom : AtAtom r.cursor := ⟨hopen, hquote, hclose, by simpa using hdot⟩
  split
  · next hread => exact .atom hatom hread
  · next hread => exact .noAtom hatom hread

private theorem step_of_close (here : r.cursor.peek = ')') :
    r.step symbols stack =
      match close r.cursor.line stack with
      | .ok (d, outer) => { r with cursor := r.cursor.next.2 : Reader }.complete symbols outer d
      | .error e => ⟨.error e, { r with cursor := r.cursor.next.2 }, symbols⟩ := by
  have notOpen : r.cursor.peek ≠ '(' := by rw [here]; decide
  have notQuote : r.cursor.peek ≠ '\'' := by rw [here]; decide
  exact (if_neg notOpen).trans <| (if_neg notQuote).trans <| if_pos here

theorem step_of_point (here : r.cursor.nextIsLoneDot = true) :
    r.step symbols stack =
      match dot r.cursor.line stack with
      | .ok stack' => ⟨.ok (.inside stack'), { r with cursor := r.cursor.next.2 }, symbols⟩
      | .error e => ⟨.error e, { r with cursor := r.cursor.next.2 }, symbols⟩ := by
  have hpeek := Cursor.peek_of_nextIsLoneDot here
  have notOpen : r.cursor.peek ≠ '(' := by rw [hpeek]; decide
  have notQuote : r.cursor.peek ≠ '\'' := by rw [hpeek]; decide
  have notClose : r.cursor.peek ≠ ')' := by rw [hpeek]; decide
  exact (if_neg notOpen).trans <| (if_neg notQuote).trans <| (if_neg notClose).trans <| if_pos here

theorem step_of_atom (here : AtAtom r.cursor) :
    r.step symbols stack =
      match readAtom r.cursor symbols with
      | ⟨.ok d, c, symbols'⟩ => { r with cursor := c : Reader }.complete symbols' stack d
      | ⟨.error e, c, symbols'⟩ => ⟨.error e, { r with cursor := c }, symbols'⟩ := by
  have notPoint : ¬r.cursor.nextIsLoneDot = true := by simp [here.notPoint]
  exact (if_neg here.notOpen).trans <| (if_neg here.notQuote).trans <|
    (if_neg here.notClose).trans <| if_neg notPoint

theorem StepsTo.eq (h : StepsTo r symbols stack reading) : r.step symbols stack = reading := by
  cases h with
  | opened here => rw [step, if_pos here]
  | quoted here => rw [step, if_neg (by rw [here]; decide), if_pos here]
  | closed here form => rw [step_of_close here, form]
  | unclosed here fault => rw [step_of_close here, fault]
  | dotted here form => rw [step_of_point here, form]
  | misplaced here fault => rw [step_of_point here, fault]
  | atom here atom => rw [step_of_atom here, atom]
  | noAtom here fault => rw [step_of_atom here, fault]

end Reader
end MiniScheme
