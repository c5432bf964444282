import MiniScheme.Datum
import MiniScheme.Reader.Error
import MiniScheme.Text.Cursor
import MiniScheme.Text.Quoted
import MiniScheme.Word
/-! # Reading atoms

Strings, truth values, numbers and symbols. Each is read from the characters still to come; the
cursor then moves behind what was read, also when it turned out to be wrong.
-/
namespace MiniScheme.Reader

open Text (Cursor isDigit)

/-- How the characters after an opening quote go on. -/
inductive StringScan where
  | closed (text : List Char) (count : Nat)
  | cut (inside : Unfinished) (count : Nat)
  | badEscape (ch : Char) (count : Nat)

namespace StringScan

def count : StringScan → Nat
  | closed _ n => n
  | cut _ n => n
  | badEscape _ n => n

end StringScan

/-- Read a string up to its closing quote. -/
def scanString (reversed : List Char) (count : Nat) : List Char → StringScan
  | [] => .cut .string count
  | '"' :: _ => .closed reversed.reverse (count + 1)
  | ['\\'] => .cut .escape (count + 1)
  | '\\' :: letter :: cs =>
    match Text.unescapeLetter? letter with
    | some ch => scanString (ch :: reversed) (count + 2) cs
    | none => .badEscape letter (count + 2)
  | ch :: cs => scanString (ch :: reversed) (count + 1) cs

/-- Value of a sequence of decimal digits. -/
def digitsValue (cs : List Char) : Nat := cs.foldl (fun n c => n * 10 + (c.toNat - '0'.toNat)) 0

/-- Whether a token has a minus sign, and what follows its sign if it has one. -/
def splitSign : List Char → Bool × List Char
  | '-' :: cs => (true, cs)
  | '+' :: cs => (false, cs)
  | cs => (false, cs)

def signed (negative : Bool) (size : Nat) : Int := if negative then -(size : Int) else size

/-- A number: an optional sign, then digits with at most one point among them. -/
def parseNumber? (token : List Char) : Option Datum :=
  let (negative, unsigned) := splitSign token
  let whole := unsigned.takeWhile isDigit
  match unsigned.dropWhile isDigit with
  | [] => if whole.isEmpty then none else (Word.ofInt? (signed negative (digitsValue whole))).map .int
  | '.' :: fraction =>
    if fraction.all isDigit && !(whole.isEmpty && fraction.isEmpty) then
      some (.float (Double.ofDecimal negative (digitsValue (whole ++ fraction)) fraction.length))
    else none
  | _ => none

def parseBool? (token : List Char) : Option Bool :=
  if token = ['#', 't'] || token = ['#', 't', 'r', 'u', 'e'] then some true
  else if token = ['#', 'f'] || token = ['#', 'f', 'a', 'l', 's', 'e'] then some false
  else none

structure AtomRead where
  outcome : Except ReadError Datum
  cursor : Cursor
  symbols : SymbolTable

def readString (c : Cursor) (symbols : SymbolTable) : AtomRead :=
  let scan := scanString [] 0 (c.upcoming.drop 1)
  let after := c.advance (scan.count + 1)
  { outcome :=
      match scan with
      | .closed text _ => .ok (.str (String.ofList text))
      | .cut inside _ => .error (.unexpectedEnd inside after.line)
      | .badEscape ch _ => .error (.invalidEscape ch after.line)
    cursor := after
    symbols := symbols }

def readHash (c : Cursor) (symbols : SymbolTable) : AtomRead :=
  { outcome :=
      match parseBool? c.readToken.1 with
      | some b => .ok (.bool b)
      | none => .error (.unexpectedChar '#' c.line)
    cursor := c.readToken.2
    symbols := symbols }

def readNumber (c : Cursor) (symbols : SymbolTable) : AtomRead :=
  { outcome :=
      match parseNumber? c.readToken.1 with
      | some d => .ok d
      | none => .error (.invalidNumber (String.ofList c.readToken.1) c.line)
    cursor := c.readToken.2
    symbols := symbols }

def readSymbol (c : Cursor) (symbols : SymbolTable) : AtomRead :=
  let token := c.readToken.1
  if token.isEmpty then ⟨.error (.unexpectedChar c.peek c.line), c.next.2, symbols⟩
  else
    match symbols.intern (String.ofList token) with
    | (.ok x, symbols) => ⟨.ok (.symbol x), c.readToken.2, symbols⟩
    | (.error e, symbols) => ⟨.error (.symbolTable e), c.readToken.2, symbols⟩

def readAtom (c : Cursor) (symbols : SymbolTable) : AtomRead :=
  if c.peek = '"' then readString c symbols
  else if c.peek = '#' then readHash c symbols
  else if c.nextIsNumber then readNumber c symbols
  else readSymbol c symbols

theorem upcoming_eq_cons {c : Cursor} (h : c.atEnd = false) :
    ∃ cs, c.upcoming = c.peek :: cs := by
  obtain ⟨pushed, rest, position, line⟩ := c
  match pushed, rest with
  | ch :: pushed, rest => exact ⟨_, rfl⟩
  | [], ch :: rest => exact ⟨_, rfl⟩
  | [], [] => simp [Cursor.atEnd] at h

theorem remaining_readToken {c : Cursor} (hend : c.atEnd = false)
    (h : Text.isDelimiter c.peek = false) : c.readToken.2.remaining < c.remaining := by
  obtain ⟨cs, hcs⟩ := upcoming_eq_cons hend
  have hpos := Cursor.remaining_pos hend
  simp only [Cursor.readToken, Cursor.tokenChars, hcs, List.takeWhile_cons, h, Bool.not_false,
    ite_true, List.length_cons, Cursor.remaining_advance]
  omega

theorem not_isDelimiter_of_startsNumber {ch : Char} {cs : List Char}
    (h : Cursor.startsNumber (ch :: cs) = true) : Text.isDelimiter ch = false := by
  unfold Cursor.startsNumber at h
  dsimp only at h
  split at h
  next heq =>
    split at heq
    next hsign => obtain ⟨rfl, _⟩ := List.cons.inj hsign; decide
    next hsign => obtain ⟨rfl, _⟩ := List.cons.inj hsign; decide
    next => obtain ⟨rfl, _⟩ := List.cons.inj heq; decide
  next heq =>
    split at heq
    next hsign => obtain ⟨rfl, _⟩ := List.cons.inj hsign; decide
    next hsign => obtain ⟨rfl, _⟩ := List.cons.inj hsign; decide
    next => obtain ⟨rfl, _⟩ := List.cons.inj heq; exact Text.not_isDelimiter_of_isDigit h
  next => simp at h

theorem remaining_readAtom {c : Cursor} (symbols : SymbolTable) (hend : c.atEnd = false) :
    (readAtom c symbols).cursor.remaining < c.remaining := by
  have hpos := Cursor.remaining_pos hend
  obtain ⟨cs, hcs⟩ := upcoming_eq_cons hend
  unfold readAtom
  split
  · have hadv := Cursor.remaining_advance c ((scanString [] 0 (c.upcoming.drop 1)).count + 1)
    simp only [readString]
    omega
  split
  next hhash => exact remaining_readToken hend (by rw [hhash]; decide)
  split
  next hnum =>
    exact remaining_readToken hend (not_isDelimiter_of_startsNumber (by rw [← hcs]; exact hnum))
  unfold readSymbol
  dsimp only
  split
  · have := Cursor.remaining_next c
    show c.next.2.remaining < c.remaining
    omega
  · next hne =>
    have htok : 0 < c.readToken.1.length := by
      cases htoken : c.readToken.1 with
      | nil => simp [htoken] at hne
      | cons _ _ => simp
    have hlt : c.readToken.2.remaining < c.remaining := by
      simp only [Cursor.readToken, Cursor.remaining_advance] at htok ⊢
      omega
    split <;> exact hlt

end MiniScheme.Reader
