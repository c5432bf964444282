/-! # Quoted strings

A string is written between double quotes; a backslash stands before the quote, before itself and
before the letters that stand for newline, tab and carriage return.
-/
namespace MiniScheme.Text

/-- The letter written after a backslash for `c`, if `c` needs one. -/
def escapeLetter? (c : Char) : Option Char :=
  if c = '\n' then some 'n'
  else if c = '\t' then some 't'
  else if c = '\r' then some 'r'
  else if c = '\\' then some '\\'
  else if c = '"' then some '"'
  else none

/-- The character that a backslash and `letter` stand for. -/
def unescapeLetter? (letter : Char) : Option Char :=
  if letter = 'n' then some '\n'
  else if letter = 't' then some '\t'
  else if letter = 'r' then some '\r'
  else if letter = '\\' then some '\\'
  else if letter = '"' then some '"'
  else none

def pushEscaped (out : String) (c : Char) : String :=
  match escapeLetter? c with
  | some letter => (out.push '\\').push letter
  | none => out.push c

def quoted (text : String) : String := (text.toList.foldl pushEscaped "\"").push '"'

theorem unescape_of_escape {c letter : Char} (h : escapeLetter? c = some letter) :
    unescapeLetter? letter = some c := by
  unfold escapeLetter? at h
  repeat' split at h
  all_goals simp_all [unescapeLetter?]
  all_goals subst h; decide

end MiniScheme.Text
