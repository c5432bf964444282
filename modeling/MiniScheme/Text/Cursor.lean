import MiniScheme.Text.Blank
/-! # Cursor over source text

A cursor reads one character after the other, counts lines and bytes, and takes characters back.
The end of the text reads as U+0000; the text may hold that character too, and `atEnd` tells the
two apart. What a token or a blank run is, is said on the list of characters still to come; the
cursor then advances by its length.
-/
namespace MiniScheme.Text

/-- A position in a text, with the characters put back in front of it. -/
structure Cursor where
  /-- Characters put back, the next one to be read first. -/
  pushed : List Char
  /-- Characters of the text not read yet. -/
  rest : List Char
  /-- Byte position of `rest` in the text. -/
  position : Nat
  /-- Current line, counted from one. -/
  line : Nat
deriving DecidableEq, Repr, Inhabited

namespace Cursor

def ofString (source : String) : Cursor := ⟨[], source.toList, 0, 1⟩

/-- What the end of the text reads as. -/
def endMark : Char := '\x00'

def byteCount (cs : List Char) : Nat := cs.foldl (fun n c => n + c.utf8Size) 0

def upcoming (c : Cursor) : List Char := c.pushed ++ c.rest

def remaining (c : Cursor) : Nat := c.pushed.length + c.rest.length

def atEnd (c : Cursor) : Bool := c.pushed.isEmpty && c.rest.isEmpty

def lineAfter (line : Nat) (ch : Char) : Nat := if ch = '\n' then line + 1 else line

/-- Read one character; the end of the text reads as `endMark` and stays the end. -/
def next (c : Cursor) : Char × Cursor :=
  match c.pushed, c.rest with
  | ch :: pushed, _ => (ch, { c with pushed := pushed, line := lineAfter c.line ch })
  | [], ch :: rest =>
    (ch, { c with rest := rest, position := c.position + ch.utf8Size, line := lineAfter c.line ch })
  | [], [] => (endMark, c)

/-- The next character, left in place. -/
def peek (c : Cursor) : Char :=
  match c.pushed, c.rest with
  | ch :: _, _ => ch
  | [], ch :: _ => ch
  | [], [] => endMark

/-- Put `ch` back, to be read next. Putting `endMark` back at the end changes nothing. -/
def unread (c : Cursor) (ch : Char) : Cursor :=
  if ch = endMark && c.atEnd then c
  else { c with pushed := ch :: c.pushed, line := if ch = '\n' then c.line - 1 else c.line }

def nextIs (c : Cursor) (ch : Char) : Bool := c.peek == ch && !(ch == endMark && c.atEnd)

def advance (c : Cursor) : Nat → Cursor
  | 0 => c
  | n + 1 => c.next.2.advance n

def clear (c : Cursor) : Cursor :=
  { c with pushed := [], rest := [], position := c.position + byteCount c.rest }

def offset (c : Cursor) : Nat := c.position - byteCount c.pushed

/-- Length of the run of blanks and `;` comments at the head of a text, added to `count`. A comment
ends with its line. -/
def blankLength (inComment : Bool) (count : Nat) : List Char → Nat
  | [] => count
  | ch :: cs =>
    if inComment then blankLength (ch != '\n') (count + 1) cs
    else if isBlank ch then blankLength false (count + 1) cs
    else if ch = ';' then blankLength true (count + 1) cs
    else count

def skipBlanks (c : Cursor) : Cursor := c.advance (blankLength false 0 c.upcoming)

/-- Whether a text begins like a number: an optional sign, then a digit or a point and a digit. -/
def startsNumber (cs : List Char) : Bool :=
  let unsigned := match cs with
    | '+' :: rest => rest
    | '-' :: rest => rest
    | _ => cs
  match unsigned with
  | '.' :: d :: _ => isDigit d
  | d :: _ => isDigit d
  | [] => false

/-- Whether a text begins with a point that stands alone. -/
def startsLoneDot : List Char → Bool
  | '.' :: ch :: _ => isDelimiter ch
  | ['.'] => true
  | _ => false

/-- The token at the head of a text: everything before the first delimiter. -/
def tokenChars (cs : List Char) : List Char := cs.takeWhile (fun ch => !isDelimiter ch)

def nextIsNumber (c : Cursor) : Bool := startsNumber c.upcoming

def nextIsLoneDot (c : Cursor) : Bool := startsLoneDot c.upcoming

/-- Read up to the next delimiter. -/
def readToken (c : Cursor) : List Char × Cursor :=
  let token := tokenChars c.upcoming
  (token, c.advance token.length)

@[simp] theorem length_upcoming (c : Cursor) : c.upcoming.length = c.remaining := by
  simp [upcoming, remaining]

theorem peek_of_upcoming {c : Cursor} {ch : Char} {cs : List Char} (h : c.upcoming = ch :: cs) :
    c.peek = ch := by
  obtain ⟨pushed, rest, position, line⟩ := c
  match pushed, rest with
  | _ :: _, _ => exact (List.cons.inj h).1
  | [], _ :: _ => exact (List.cons.inj h).1
  | [], [] => simp [upcoming] at h

theorem atEnd_eq (c : Cursor) : c.atEnd = c.upcoming.isEmpty := by
  obtain ⟨pushed, rest, position, line⟩ := c
  cases pushed <;> rfl

theorem upcoming_next (c : Cursor) : c.next.2.upcoming = c.upcoming.drop 1 := by
  obtain ⟨pushed, rest, position, line⟩ := c
  match pushed, rest with
  | _ :: _, _ => rfl
  | [], _ :: _ => rfl
  | [], [] => rfl

theorem upcoming_advance (c : Cursor) (n : Nat) :
    (c.advance n).upcoming = c.upcoming.drop n := by
  induction n generalizing c with
  | zero => rfl
  | succ n ih => rw [advance, ih, upcoming_next, List.drop_drop, Nat.add_comm]

theorem remaining_next (c : Cursor) : c.next.2.remaining = c.remaining - 1 := by
  obtain ⟨pushed, rest, position, line⟩ := c
  match pushed, rest with
  | ch :: pushed, rest => simp only [next, remaining, List.length_cons]; omega
  | [], ch :: rest => simp [next, remaining]
  | [], [] => simp [next, remaining]

theorem remaining_advance (c : Cursor) (n : Nat) :
    (c.advance n).remaining = c.remaining - n := by
  induction n generalizing c with
  | zero => rfl
  | succ n ih => rw [advance, ih, remaining_next]; omega

theorem remaining_pos {c : Cursor} (h : c.atEnd = false) : 0 < c.remaining := by
  obtain ⟨pushed, rest, position, line⟩ := c
  match pushed, rest with
  | ch :: pushed, rest => simp only [remaining, List.length_cons]; omega
  | [], ch :: rest => simp only [remaining, List.length_cons]; omega
  | [], [] => simp [atEnd] at h

theorem remaining_skipBlanks (c : Cursor) : c.skipBlanks.remaining ≤ c.remaining := by
  rw [skipBlanks, remaining_advance]; omega

end Cursor
end MiniScheme.Text
