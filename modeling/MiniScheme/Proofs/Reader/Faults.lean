import MiniScheme.Proofs.Reader.Steps
/-! # What the reader finds wrong

Each error of the reader has its place: a parenthesis or a point where none may stand, a list with a
fault, an atom that is none, a table without room. Here is stated once which errors a token can lead
to and what then stands at the cursor; that only strings are cut off within a token, and which
characters are reported as unexpected, is read off from it.
-/
namespace MiniScheme

open Text (Cursor)

/-- Where the next token is none of those that are told by what they begin with. -/
structure Text.Cursor.AtSymbol (c : Cursor) : Prop where
  notOpen : c.peek ≠ '('
  notQuote : c.peek ≠ '\''
  notClose : c.peek ≠ ')'
  notPoint : c.nextIsLoneDot = false
  notString : c.peek ≠ '"'
  notHash : c.peek ≠ '#'
  notNumber : c.nextIsNumber = false

namespace Reader

variable {c : Cursor} {r : Reader} {symbols : SymbolTable} {stack : List Unclosed} {d : Datum}
  {line : Nat} {e : ReadError}

theorem close_error (h : close line stack = .error e) :
    e = .unexpectedChar ')' line ∨ e = .badDottedList .missingTail line := by
  unfold close at h
  split at h <;> cases h <;> simp

theorem dot_error (h : dot line stack = .error e) :
    e = .unexpectedChar '.' line ∨ e = .badDottedList .misplaced line := by
  unfold dot at h
  split at h <;> cases h <;> simp

private theorem quoteSymbol_error (h : (r.quoteSymbol symbols).outcome = .error e) :
    ∃ cause, e = .symbolTable cause := by
  unfold quoteSymbol at h
  split at h
  · simp at h
  split at h
  · simp at h
  · obtain rfl := Except.error.inj h
    exact ⟨_, rfl⟩

/-- Handing over a datum fails for want of the symbol `quote`, or because the datum is a second
tail. -/
theorem complete_error (h : (r.complete symbols stack d).outcome = .error e) :
    (∃ cause, e = .symbolTable cause) ∨ ∃ line, e = .badDottedList .secondTail line := by
  induction stack generalizing r symbols d with
  | nil => simp [complete] at h
  | cons form stack ih =>
    cases form with
    | quotation =>
      rw [complete] at h
      rcases hread : r.quoteSymbol symbols with ⟨outcome, r', symbols'⟩
      rw [hread] at h
      cases outcome with
      | ok x => exact ih h
      | error e' =>
        obtain rfl := Except.error.inj h
        exact .inl (quoteSymbol_error (congrArg Reading.outcome hread))
    | list reversed => simp [complete] at h
    | dotted reversed => simp [complete] at h
    | ended reversed tail => exact .inr ⟨r.cursor.line, (Except.error.inj h).symm⟩

/-- What can be wrong with the token at the cursor, or with what it completes. -/
inductive TokenFault (c : Cursor) : ReadError → Prop
  | close (line : Nat) : TokenFault c (.unexpectedChar ')' line)
  | point (line : Nat) : TokenFault c (.unexpectedChar '.' line)
  | list (fault : DotFault) (line : Nat) : TokenFault c (.badDottedList fault line)
  | cut (start : c.peek = '"') (inside : Unfinished) (line : Nat) :
    TokenFault c (.unexpectedEnd inside line)
  | escape (ch : Char) (line : Nat) : TokenFault c (.invalidEscape ch line)
  | hash (line : Nat) : TokenFault c (.unexpectedChar '#' line)
  | number (token : String) (line : Nat) : TokenFault c (.invalidNumber token line)
  | empty (here : c.AtSymbol) (none : c.readToken.1 = []) (line : Nat) :
    TokenFault c (.unexpectedChar c.peek line)
  | full (cause : SymbolTableError) : TokenFault c (.symbolTable cause)

private theorem complete_fault (h : (r.complete symbols stack d).outcome = .error e) :
    TokenFault c e := by
  rcases complete_error h with ⟨cause, rfl⟩ | ⟨line, rfl⟩
  · exact .full cause
  · exact .list _ line

private theorem readAtom_fault (hatom : AtAtom c) (h : (readAtom c symbols).outcome = .error e) :
    TokenFault c e := by
  unfold readAtom at h
  split at h
  · next hstring =>
    simp only [readString] at h
    split at h <;> cases h
    · exact .cut hstring _ _
    · exact .escape _ _
  next hstring =>
  split at h
  · simp only [readHash] at h
    split at h <;> cases h
    exact .hash _
  next hhash =>
  split at h
  · simp only [readNumber] at h
    split at h <;> cases h
    exact .number _ _
  next hnumber =>
  simp only [readSymbol] at h
  split at h
  · next hempty =>
    obtain rfl := Except.error.inj h
    exact .empty ⟨hatom.notOpen, hatom.notQuote, hatom.notClose, hatom.notPoint, hstring, hhash,
      by simpa using hnumber⟩ (by simpa using hempty) _
  split at h <;> cases h
  exact .full _

/-- Every error that a token leads to. -/
theorem step_fault (h : (r.step symbols stack).outcome = .error e) : TokenFault r.cursor e := by
  have hstep := stepsTo r symbols stack
  generalize r.step symbols stack = reading at hstep h
  cases hstep with
  | opened | quoted | dotted => cases h
  | closed => exact complete_fault h
  | unclosed _ fault =>
    obtain rfl := Except.error.inj h
    rcases close_error fault with rfl | rfl
    · exact .close _
    · exact .list _ _
  | misplaced _ fault =>
    obtain rfl := Except.error.inj h
    rcases dot_error fault with rfl | rfl
    · exact .point _
    · exact .list _ _
  | atom => exact complete_fault h
  | noAtom here fault =>
    obtain rfl := Except.error.inj h
    exact readAtom_fault here (congrArg AtomRead.outcome fault)

end Reader
end MiniScheme
