import MiniScheme.Reader.Atom
/-! # Reading data

A reader takes one datum after the other from a text. Open lists and quote marks stand on a stack,
so nesting is bounded by nothing but the text. After an error the reader stands behind what it
looked at, and reading may go on from there.
-/
namespace MiniScheme

open Text (Cursor)

structure Reader where
  cursor : Cursor
  /-- The symbol that quote marks stand for, once one has been met. -/
  quotation : Option Symbol

structure Reading (α : Type) where
  outcome : Except ReadError α
  reader : Reader
  symbols : SymbolTable

namespace Reader

inductive Unclosed where
  /-- A quote mark without its datum. -/
  | quotation
  /-- A list with these elements, the last one first. -/
  | list (reversed : List Datum)
  /-- A list after its point. -/
  | dotted (reversed : List Datum)
  /-- A list after its tail. -/
  | ended (reversed : List Datum) (tail : Datum)

def ofString (source : String) : Reader := ⟨Cursor.ofString source, none⟩

/-- Byte position where the next datum is looked for. -/
def offset (r : Reader) : Nat := r.cursor.offset

/-- Drop the rest of the text. -/
def clear (r : Reader) : Reader := { r with cursor := r.cursor.clear }

/-- The symbol `quote`, interned when the first quotation is complete. -/
def quoteSymbol (r : Reader) (symbols : SymbolTable) : Reading Symbol :=
  match r.quotation with
  | some x => ⟨.ok x, r, symbols⟩
  | none =>
    match symbols.intern "quote" with
    | (.ok x, symbols) => ⟨.ok x, { r with quotation := some x }, symbols⟩
    | (.error e, symbols) => ⟨.error (.symbolTable e), r, symbols⟩

inductive Progress where
  /-- The outermost form is complete. -/
  | finished (d : Datum)
  /-- These forms are still open. -/
  | inside (stack : List Unclosed)

/-- Hand a datum to the innermost open form. -/
def complete (r : Reader) (symbols : SymbolTable) :
    List Unclosed → Datum → Reading Progress
  | [], d => ⟨.ok (.finished d), r, symbols⟩
  | .quotation :: stack, d =>
    match r.quoteSymbol symbols with
    | ⟨.ok x, r, symbols⟩ => r.complete symbols stack (.pair (.symbol x) (.pair d .nil))
    | ⟨.error e, r, symbols⟩ => ⟨.error e, r, symbols⟩
  | .list reversed :: stack, d => ⟨.ok (.inside (.list (d :: reversed) :: stack)), r, symbols⟩
  | .dotted reversed :: stack, d => ⟨.ok (.inside (.ended reversed d :: stack)), r, symbols⟩
  | .ended _ _ :: _, _ => ⟨.error (.badDottedList .secondTail r.cursor.line), r, symbols⟩

/-- The list that a closing parenthesis on line `line` ends, and the forms around it. -/
def close (line : Nat) : List Unclosed → Except ReadError (Datum × List Unclosed)
  | .list reversed :: stack => .ok (Datum.consAll .nil reversed, stack)
  | .ended reversed tail :: stack => .ok (Datum.consAll tail reversed, stack)
  | .dotted _ :: _ => .error (.badDottedList .missingTail line)
  | .quotation :: _ => .error (.unexpectedChar ')' line)
  | [] => .error (.unexpectedChar ')' line)

/-- The open forms after a lone point on line `line`. -/
def dot (line : Nat) : List Unclosed → Except ReadError (List Unclosed)
  | .list (d :: reversed) :: stack => .ok (.dotted (d :: reversed) :: stack)
  | .list [] :: _ => .error (.badDottedList .misplaced line)
  | .dotted _ :: _ => .error (.badDottedList .misplaced line)
  | .ended _ _ :: _ => .error (.badDottedList .misplaced line)
  | .quotation :: _ => .error (.unexpectedChar '.' line)
  | [] => .error (.unexpectedChar '.' line)

/-- What the text ends inside of. -/
def unfinished : List Unclosed → Unfinished
  | .quotation :: _ => .quotation
  | _ => .list

/-- What one token leads to: forms still open, a complete datum, or an error. -/
def step (r : Reader) (symbols : SymbolTable) (stack : List Unclosed) : Reading Progress :=
  let line := r.cursor.line
  let after : Reader := { r with cursor := r.cursor.next.2 }
  if r.cursor.peek = '(' then ⟨.ok (.inside (.list [] :: stack)), after, symbols⟩
  else if r.cursor.peek = '\'' then ⟨.ok (.inside (.quotation :: stack)), after, symbols⟩
  else if r.cursor.peek = ')' then
    match close line stack with
    | .ok (d, stack) => after.complete symbols stack d
    | .error e => ⟨.error e, after, symbols⟩
  else if r.cursor.nextIsLoneDot then
    match dot line stack with
    | .ok stack => ⟨.ok (.inside stack), after, symbols⟩
    | .error e => ⟨.error e, after, symbols⟩
  else
    match readAtom r.cursor symbols with
    | ⟨.ok d, cursor, symbols⟩ => { r with cursor := cursor : Reader }.complete symbols stack d
    | ⟨.error e, cursor, symbols⟩ => ⟨.error e, { r with cursor := cursor }, symbols⟩

theorem cursor_quoteSymbol (r : Reader) (symbols : SymbolTable) :
    (r.quoteSymbol symbols).reader.cursor = r.cursor := by
  unfold quoteSymbol
  split
  · rfl
  · split <;> rfl

theorem cursor_complete (r : Reader) (symbols : SymbolTable) (stack : List Unclosed) (d : Datum) :
    (r.complete symbols stack d).reader.cursor = r.cursor := by
  induction stack generalizing r symbols d with
  | nil => rfl
  | cons form stack ih =>
    cases form with
    | quotation =>
      have hq := cursor_quoteSymbol r symbols
      unfold complete
      split <;> rename_i h <;> rw [h] at hq
      · rw [ih]; exact hq
      · exact hq
    | list reversed => rfl
    | dotted reversed => rfl
    | ended reversed tail => rfl

theorem remaining_step {r : Reader} (symbols : SymbolTable) (stack : List Unclosed)
    (hend : r.cursor.atEnd = false) :
    (r.step symbols stack).reader.cursor.remaining < r.cursor.remaining := by
  have hpos := Cursor.remaining_pos hend
  have hnext : r.cursor.next.2.remaining < r.cursor.remaining := by
    have := Cursor.remaining_next r.cursor
    omega
  have hatom := remaining_readAtom symbols hend
  unfold step
  dsimp only
  split
  · exact hnext
  split
  · exact hnext
  split
  · split
    · rw [cursor_complete]; exact hnext
    · exact hnext
  split
  · split <;> exact hnext
  split <;> rename_i h <;> rw [h] at hatom
  · rw [cursor_complete]; exact hatom
  · exact hatom

def skipBlanks (r : Reader) : Reader := { r with cursor := r.cursor.skipBlanks }

theorem remaining_step_skipBlanks (r : Reader) (symbols : SymbolTable) (stack : List Unclosed)
    (hend : ¬ r.skipBlanks.cursor.atEnd = true) :
    (r.skipBlanks.step symbols stack).reader.cursor.remaining < r.cursor.remaining :=
  Nat.lt_of_lt_of_le (remaining_step symbols stack (by simpa using hend))
    (Cursor.remaining_skipBlanks r.cursor)

theorem remaining_of_step {r after : Reader} {symbols symbols' : SymbolTable}
    {stack : List Unclosed} {outcome : Except ReadError Progress}
    (hend : ¬ r.skipBlanks.cursor.atEnd = true)
    (hstep : r.skipBlanks.step symbols stack = ⟨outcome, after, symbols'⟩) :
    after.cursor.remaining < r.cursor.remaining := by
  have hlt := remaining_step_skipBlanks r symbols stack hend
  rw [hstep] at hlt
  exact hlt

/-- Read until the outermost form is complete. -/
def readDatum (r : Reader) (symbols : SymbolTable) (stack : List Unclosed) : Reading Datum :=
  if _ : r.skipBlanks.cursor.atEnd then
    ⟨.error (.unexpectedEnd (unfinished stack) r.skipBlanks.cursor.line), r.skipBlanks, symbols⟩
  else
    match _ : r.skipBlanks.step symbols stack with
    | ⟨.ok (.finished d), after, symbols'⟩ => ⟨.ok d, after, symbols'⟩
    | ⟨.ok (.inside stack'), after, symbols'⟩ => after.readDatum symbols' stack'
    | ⟨.error e, after, symbols'⟩ => ⟨.error e, after, symbols'⟩
termination_by r.cursor.remaining
decreasing_by exact remaining_of_step ‹_› ‹_›

/-- Read the next datum; `none` once nothing but blanks and comments is left. -/
def read (r : Reader) (symbols : SymbolTable) : Reading (Option Datum) :=
  if r.skipBlanks.cursor.atEnd then ⟨.ok none, r.skipBlanks, symbols⟩
  else
    match r.readDatum symbols [] with
    | ⟨.ok d, r, symbols⟩ => ⟨.ok (some d), r, symbols⟩
    | ⟨.error e, r, symbols⟩ => ⟨.error e, r, symbols⟩

theorem remaining_readDatum_le (r : Reader) (symbols : SymbolTable) (stack : List Unclosed) :
    (r.readDatum symbols stack).reader.cursor.remaining ≤ r.cursor.remaining := by
  fun_induction readDatum r symbols stack with
  | case1 r symbols stack hend => exact Cursor.remaining_skipBlanks r.cursor
  | case2 r symbols stack hend d after symbols' hstep =>
    exact Nat.le_of_lt (remaining_of_step hend hstep)
  | case3 r symbols stack hend stack' after symbols' hstep ih =>
    exact Nat.le_trans ih (Nat.le_of_lt (remaining_of_step hend hstep))
  | case4 r symbols stack hend e after symbols' hstep =>
    exact Nat.le_of_lt (remaining_of_step hend hstep)

theorem remaining_readDatum_lt (r : Reader) (symbols : SymbolTable) (stack : List Unclosed)
    (hend : ¬ r.skipBlanks.cursor.atEnd = true) :
    (r.readDatum symbols stack).reader.cursor.remaining < r.cursor.remaining := by
  unfold readDatum
  rw [dif_neg hend]
  split <;> rename_i hstep
  · exact remaining_of_step hend hstep
  · exact Nat.lt_of_le_of_lt (remaining_readDatum_le _ _ _) (remaining_of_step hend hstep)
  · exact remaining_of_step hend hstep

theorem remaining_read {r after : Reader} {symbols symbols' : SymbolTable} {d : Datum}
    (h : r.read symbols = ⟨.ok (some d), after, symbols'⟩) :
    after.cursor.remaining < r.cursor.remaining := by
  unfold read at h
  split at h
  · simp at h
  · next hend =>
    have hlt := remaining_readDatum_lt r symbols [] hend
    split at h <;> rename_i hread <;> rw [hread] at hlt <;> simp at h
    rw [← h.2.1]
    exact hlt

/-- Read every datum that is left. -/
def readAll (r : Reader) (symbols : SymbolTable) (reversed : List Datum) : Reading (List Datum) :=
  match _ : r.read symbols with
  | ⟨.ok (some d), after, symbols'⟩ => after.readAll symbols' (d :: reversed)
  | ⟨.ok none, after, symbols'⟩ => ⟨.ok reversed.reverse, after, symbols'⟩
  | ⟨.error e, after, symbols'⟩ => ⟨.error e, after, symbols'⟩
termination_by r.cursor.remaining
decreasing_by exact remaining_read ‹_›

end Reader
end MiniScheme
