import MiniScheme.Proofs.Reader.Steps
/-! # Where a reader stands

A reader moves over its text by taking one character after the other and never goes back. So a
property of positions that taking a character keeps is kept by reading, however it ends; that the
position counts the bytes of the text before it is one of them.
-/
namespace MiniScheme

open Text (Cursor)

namespace Text.Cursor

theorem byteCount_concat (cs : List Char) (ch : Char) :
    byteCount (cs ++ [ch]) = byteCount cs + ch.utf8Size := by
  simp [byteCount]

/-- The cursor stands in `source`, nothing is put back, and the position counts the bytes before. -/
structure StandsIn (source : List Char) (c : Cursor) : Prop where
  pushed : c.pushed = []
  split : ∃ before, source = before ++ c.rest ∧ c.position = byteCount before

theorem standsIn_ofString (source : String) : (ofString source).StandsIn source.toList :=
  ⟨rfl, [], rfl, rfl⟩

theorem StandsIn.next {source : List Char} {c : Cursor} (h : c.StandsIn source) :
    c.next.2.StandsIn source := by
  obtain ⟨pushed, rest, position, line⟩ := c
  obtain ⟨rfl, before, hsource, hposition⟩ := h
  cases rest with
  | nil => exact ⟨rfl, before, hsource, hposition⟩
  | cons ch rest =>
    refine ⟨rfl, before ++ [ch], ?_, ?_⟩
    · rw [hsource, Cursor.next, List.append_assoc]
      rfl
    · rw [byteCount_concat, ← hposition]
      rfl

theorem atEnd_iff {c : Cursor} : c.atEnd = true ↔ c.upcoming = [] := by
  rw [atEnd_eq, List.isEmpty_iff]

/-- The byte position is that of the text in front of the characters still to come. -/
theorem StandsIn.offset_eq {source : List Char} {c : Cursor} (h : c.StandsIn source) :
    ∃ before, source = before ++ c.upcoming ∧ c.offset = byteCount before := by
  obtain ⟨before, hsource, hposition⟩ := h.split
  refine ⟨before, ?_, ?_⟩
  · rw [hsource, upcoming, h.pushed, List.nil_append]
  · rw [offset, h.pushed, hposition]
    rfl

section Keeping

variable {P : Cursor → Prop} {c : Cursor}

theorem keeps_advance (hnext : ∀ c, P c → P c.next.2) (h : P c) (n : Nat) :
    P (c.advance n) := by
  induction n generalizing c with
  | zero => exact h
  | succ n ih => exact ih (hnext c h)

theorem keeps_readAtom (hnext : ∀ c, P c → P c.next.2) (h : P c) (symbols : SymbolTable) :
    P (Reader.readAtom c symbols).cursor := by
  have htoken : P c.readToken.2 := keeps_advance hnext h _
  unfold Reader.readAtom
  split
  · exact keeps_advance hnext h _
  split
  · exact htoken
  split
  · exact htoken
  unfold Reader.readSymbol
  dsimp only
  split
  · exact hnext c h
  split <;> exact htoken

end Keeping
end Text.Cursor

namespace Reader

variable {P : Cursor → Prop} {r : Reader}

theorem keeps_step (hnext : ∀ c, P c → P c.next.2) (h : P r.cursor) (symbols : SymbolTable)
    (stack : List Unclosed) : P (r.step symbols stack).reader.cursor := by
  have hafter := hnext _ h
  have hatom := Cursor.keeps_readAtom hnext h symbols
  have hstep := stepsTo r symbols stack
  generalize r.step symbols stack = reading at hstep ⊢
  cases hstep with
  | opened | quoted | unclosed | dotted | misplaced => exact hafter
  | closed =>
    rw [cursor_complete]
    exact hafter
  | atom _ hread =>
    rw [hread] at hatom
    rw [cursor_complete]
    exact hatom
  | noAtom _ hread =>
    rw [hread] at hatom
    exact hatom

/-- What blanks and every token keep of reader and table, reading a datum keeps. -/
theorem of_readDatum {Q : Reader → SymbolTable → Prop} {symbols : SymbolTable}
    (hskip : ∀ r symbols, Q r symbols → Q r.skipBlanks symbols)
    (hstep : ∀ r symbols stack, Q r symbols →
      Q (r.step symbols stack).reader (r.step symbols stack).symbols)
    (h : Q r symbols) (stack : List Unclosed) :
    Q (r.readDatum symbols stack).reader (r.readDatum symbols stack).symbols := by
  have hnext {r after : Reader} {symbols symbols' : SymbolTable} {stack : List Unclosed}
      {outcome : Except ReadError Progress} (h : Q r symbols)
      (heq : r.skipBlanks.step symbols stack = ⟨outcome, after, symbols'⟩) : Q after symbols' := by
    have hkept := hstep r.skipBlanks symbols stack (hskip r symbols h)
    rwa [heq] at hkept
  fun_induction readDatum r symbols stack with
  | case1 r symbols stack hend => exact hskip r symbols h
  | case2 r symbols stack hend d after symbols' heq => exact hnext h heq
  | case3 r symbols stack hend stack' after symbols' heq ih => exact ih (hnext h heq)
  | case4 r symbols stack hend e after symbols' heq => exact hnext h heq

theorem keeps_readDatum (hnext : ∀ c, P c → P c.next.2) (h : P r.cursor) (symbols : SymbolTable)
    (stack : List Unclosed) : P (r.readDatum symbols stack).reader.cursor :=
  of_readDatum (Q := fun r _ => P r.cursor) (fun _ _ h => Cursor.keeps_advance hnext h _)
    (fun _ symbols stack h => keeps_step hnext h symbols stack) h stack

theorem keeps_read (hnext : ∀ c, P c → P c.next.2) (h : P r.cursor) (symbols : SymbolTable) :
    P (r.read symbols).reader.cursor := by
  have hdatum := keeps_readDatum hnext h symbols []
  unfold read
  split
  · exact Cursor.keeps_advance hnext h _
  split <;> rename_i heq <;> rw [heq] at hdatum <;> exact hdatum

end Reader
end MiniScheme
