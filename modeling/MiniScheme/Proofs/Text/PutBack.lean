import Mathlib.Data.List.DropRight
import MiniScheme.Proofs.Reader.Progress
/-! # Putting characters back

Characters that were read and are put back, the last one first, leave a cursor as it was, wherever it
stood and however many lines and bytes were taken. The one exception is at the end of the text: a
U+0000 that was read as its last character is taken for the mark of the end and is not put back, and
so are those that stand in front of it.
-/
namespace MiniScheme.Text.Cursor

variable {c c' : Cursor} {ch : Char} {cs : List Char}

def taken (c : Cursor) : Nat → List Char
  | 0 => []
  | n + 1 => c.next.1 :: c.next.2.taken n

/-- Put characters back, the last one first. -/
def putBack (c : Cursor) (chs : List Char) : Cursor := chs.foldr (fun ch c => c.unread ch) c

/-- The cursor after reading `n` characters and putting them back. -/
def retaken (c : Cursor) (n : Nat) : Cursor := (c.advance n).putBack (c.taken n)

/-- Nothing that a cursor answers tells the two apart. -/
structure Alike (c c' : Cursor) : Prop where
  upcoming : c.upcoming = c'.upcoming
  atEnd : c.atEnd = c'.atEnd
  offset : c.offset = c'.offset
  line : c.line = c'.line
  peek : c.peek = c'.peek
  nextIsNumber : c.nextIsNumber = c'.nextIsNumber
  nextIsLoneDot : c.nextIsLoneDot = c'.nextIsLoneDot
  token : c.readToken.1 = c'.readToken.1

private theorem peek_eq_headD (c : Cursor) : c.peek = c.upcoming.headD endMark := by
  match c with
  | ⟨_ :: _, _, _, _⟩ => rfl
  | ⟨[], _ :: _, _, _⟩ => rfl
  | ⟨[], [], _, _⟩ => rfl

theorem alike_of_upcoming (hupcoming : c.upcoming = c'.upcoming) (hoffset : c.offset = c'.offset)
    (hline : c.line = c'.line) : c.Alike c' where
  upcoming := hupcoming
  atEnd := by rw [atEnd_eq, atEnd_eq, hupcoming]
  offset := hoffset
  line := hline
  peek := by rw [peek_eq_headD, peek_eq_headD, hupcoming]
  nextIsNumber := congrArg startsNumber hupcoming
  nextIsLoneDot := congrArg startsLoneDot hupcoming
  token := congrArg tokenChars hupcoming

theorem Alike.refl (c : Cursor) : c.Alike c := alike_of_upcoming rfl rfl rfl

private theorem retaken_succ (c : Cursor) (n : Nat) :
    c.retaken (n + 1) = (c.next.2.retaken n).unread c.next.1 := rfl

private theorem next_of_nil (h : c.upcoming = []) : c.next = (endMark, c) := by
  match c with
  | ⟨[], [], _, _⟩ => rfl
  | ⟨_ :: _, _, _, _⟩ => simp [upcoming] at h
  | ⟨[], _ :: _, _, _⟩ => simp [upcoming] at h

private theorem next_of_cons (h : c.upcoming = ch :: cs) :
    c.next.1 = ch ∧ c.next.2.upcoming = cs ∧ c.next.2.line = lineAfter c.line ch := by
  match c with
  | ⟨_ :: _, _, _, _⟩ =>
    obtain ⟨rfl, rfl⟩ := List.cons.inj h
    exact ⟨rfl, rfl, rfl⟩
  | ⟨[], _ :: _, _, _⟩ =>
    obtain ⟨rfl, rfl⟩ := List.cons.inj h
    exact ⟨rfl, rfl, rfl⟩
  | ⟨[], [], _, _⟩ => simp [upcoming] at h

theorem offset_next (h : c.upcoming = ch :: cs) : c.next.2.offset - ch.utf8Size = c.offset := by
  match c with
  | ⟨_ :: _, _, _, _⟩ =>
    obtain ⟨rfl, rfl⟩ := List.cons.inj h
    rw [offset, offset, byteCount_cons, Nat.sub_sub, Nat.add_comm]
    rfl
  | ⟨[], _ :: _, _, _⟩ =>
    obtain ⟨rfl, rfl⟩ := List.cons.inj h
    exact Nat.add_sub_cancel _ _
  | ⟨[], [], _, _⟩ => simp [upcoming] at h

private theorem unread_at_end (h : c.upcoming = []) : c.unread endMark = c := by
  simp [unread, atEnd_eq, h]

theorem unread_eq (h : ch = endMark → c.upcoming ≠ []) :
    (c.unread ch).upcoming = ch :: c.upcoming ∧ (c.unread ch).offset = c.offset - ch.utf8Size ∧
      (c.unread ch).line = if ch = '\n' then c.line - 1 else c.line := by
  have hend : ¬ (ch = endMark && c.atEnd) = true := by
    simpa [atEnd_eq] using h
  rw [unread, if_neg hend]
  refine ⟨rfl, ?_, rfl⟩
  show _ - byteCount (_ :: _) = _ - _ - _
  rw [byteCount_cons, Nat.sub_sub, Nat.add_comm]

/-- Putting back the character that was read undoes the reading. -/
theorem Alike.unread_next (halike : c'.Alike c.next.2) (h : c.upcoming = ch :: cs)
    (hend : ch = endMark → cs ≠ []) : (c'.unread ch).Alike c := by
  obtain ⟨-, hnext, hline⟩ := next_of_cons h
  have hleft : ch = endMark → c'.upcoming ≠ [] := by
    rw [halike.upcoming, hnext]
    exact hend
  obtain ⟨hupcoming, hoffset, hline'⟩ := unread_eq hleft
  apply alike_of_upcoming
  · rw [hupcoming, halike.upcoming, hnext, h]
  · rw [hoffset, halike.offset, offset_next h]
  · rw [hline', halike.line, hline, lineAfter]
    split <;> rfl

theorem alike_retaken {n : Nat} (h : c.remaining ≤ n → c.upcoming.getLast? ≠ some endMark) :
    (c.retaken n).Alike c := by
  induction n generalizing c with
  | zero => exact .refl c
  | succ n ih =>
    rw [retaken_succ]
    cases hupcoming : c.upcoming with
    | nil =>
      have halike : (c.retaken n).Alike c := ih (by simp [hupcoming])
      rw [next_of_nil hupcoming, unread_at_end (halike.upcoming.trans hupcoming)]
      exact halike
    | cons ch cs =>
      obtain ⟨hch, hnext, -⟩ := next_of_cons hupcoming
      rw [hch]
      rw [← length_upcoming, hupcoming, List.length_cons] at h
      apply Alike.unread_next _ hupcoming
      · rintro rfl rfl
        simp at h
      · apply ih
        rw [← length_upcoming, hnext]
        intro hn hlast
        apply h (Nat.succ_le_succ hn)
        rw [List.getLast?_cons, hlast]
        rfl

private theorem rdropWhile_cons (ch : Char) (cs : List Char) :
    (ch :: cs).rdropWhile (· == endMark) =
      if cs.rdropWhile (· == endMark) = [] ∧ ch = endMark then []
      else ch :: cs.rdropWhile (· == endMark) := by
  simp only [List.rdropWhile, List.reverse_cons, List.dropWhile_append, List.isEmpty_iff,
    List.reverse_eq_nil_iff]
  by_cases hcs : cs.reverse.dropWhile (· == endMark) = [] <;> by_cases hch : ch = endMark <;>
    simp [hcs, hch]

/-- When all that is left was read, the marks at its end are not put back. -/
theorem upcoming_retaken {n : Nat} (h : c.remaining ≤ n) :
    (c.retaken n).upcoming = c.upcoming.rdropWhile (· == endMark) := by
  induction n generalizing c with
  | zero =>
    have hnil : c.upcoming = [] := List.length_eq_zero_iff.mp (by rw [length_upcoming]; omega)
    rw [hnil, List.rdropWhile_nil]
    exact hnil
  | succ n ih =>
    rw [retaken_succ]
    cases hupcoming : c.upcoming with
    | nil =>
      have hrest : (c.retaken n).upcoming = [] := by
        rw [(alike_retaken (by simp [hupcoming])).upcoming, hupcoming]
      rw [next_of_nil hupcoming, unread_at_end hrest, hrest, List.rdropWhile_nil]
    | cons ch cs =>
      obtain ⟨hch, hnext, -⟩ := next_of_cons hupcoming
      have hrest : (c.next.2.retaken n).upcoming = cs.rdropWhile (· == endMark) := by
        rw [ih (by rw [remaining_next]; omega), hnext]
      rw [hch, rdropWhile_cons, ← hrest]
      split
      next hmark =>
        rw [hmark.2, unread_at_end hmark.1, hmark.1]
      next hkeeps =>
        exact (unread_eq fun hmark hnil => hkeeps ⟨hnil, hmark⟩).1

/-- Reading any number of characters and putting them back restores the cursor, unless all that was
left is read and ends in the mark of the end. Then all is put back but the marks at the end. -/
theorem retaken_alike_unless_marked (c : Cursor) (n : Nat) :
    ((c.retaken n).Alike c ↔ ¬ (c.remaining ≤ n ∧ c.upcoming.getLast? = some endMark)) ∧
      (c.remaining ≤ n → (c.retaken n).upcoming = c.upcoming.rdropWhile (· == endMark)) := by
  refine ⟨⟨?_, fun h => alike_retaken fun hn hlast => h ⟨hn, hlast⟩⟩, upcoming_retaken⟩
  rintro halike ⟨hn, hlast⟩
  have hkept := halike.upcoming
  rw [upcoming_retaken hn, List.rdropWhile_eq_self_iff] at hkept
  have hne : c.upcoming ≠ [] := by
    intro hnil
    simp [hnil] at hlast
  rw [List.getLast?_eq_some_getLast hne] at hlast
  apply hkept hne
  simpa using hlast

/-- A U+0000 in front of another character is put back, and one at the end of the text is not. -/
example : ((ofString "\x00a").retaken 1).upcoming = ['\x00', 'a'] ∧
    (ofString "a\x00").retaken 2 = ⟨['a'], [], 2, 1⟩ := by decide

end MiniScheme.Text.Cursor
