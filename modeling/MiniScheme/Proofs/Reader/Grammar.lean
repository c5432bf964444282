import MiniScheme.Proofs.Reader.Atom
import MiniScheme.Reader.Basic
/-! # The grammar of data

A recursive reading of source text: a datum is an atom, a quote mark and a datum, or data between
parentheses, the last of them perhaps behind a point. Nothing is kept but the text that is left and
the symbol table, and recursion takes the place of a stack of open forms. It goes on behind a datum
only where that has taken some of the text, and comes to nothing otherwise; that it always comes to an
answer is part of what is shown about it.
-/
namespace MiniScheme

inductive ReadError.Kind where
  | unexpectedEnd
  | unexpectedChar
  | invalidNumber
  | invalidEscape
  | badDottedList
  | symbolTable
deriving DecidableEq, Repr

def ReadError.kind : ReadError → Kind
  | unexpectedEnd _ _ => .unexpectedEnd
  | unexpectedChar _ _ => .unexpectedChar
  | invalidNumber _ _ => .invalidNumber
  | invalidEscape _ _ => .invalidEscape
  | badDottedList _ _ => .badDottedList
  | symbolTable _ => .symbolTable

namespace Grammar

open Text (Cursor isBlank isDelimiter)

/-- What reading from a text comes to, the text behind what was read, and the symbols known then. -/
structure Parse (α : Type) where
  outcome : Except ReadError.Kind α
  rest : List Char
  symbols : SymbolTable

def wrong {α : Type} (kind : ReadError.Kind) (rest : List Char) (symbols : SymbolTable) :
    Option (Parse α) :=
  some ⟨.error kind, rest, symbols⟩

mutual

/-- The text from its first token on. -/
def afterBlanks : List Char → List Char
  | [] => []
  | ch :: cs =>
    if isBlank ch then afterBlanks cs else if ch = ';' then afterComment cs else ch :: cs

/-- The text from the first token behind a comment on. -/
def afterComment : List Char → List Char
  | [] => []
  | ch :: cs => if ch = '\n' then afterBlanks cs else afterComment cs

end

private theorem length_afterBlanks_afterComment (cs : List Char) :
    (afterBlanks cs).length ≤ cs.length ∧ (afterComment cs).length ≤ cs.length := by
  induction cs with
  | nil => simp [afterBlanks, afterComment]
  | cons ch cs ih =>
    obtain ⟨hblanks, hcomment⟩ := ih
    rw [afterBlanks, afterComment, List.length_cons]
    constructor
    · split
      · exact Nat.le_succ_of_le hblanks
      split
      · exact Nat.le_succ_of_le hcomment
      · exact Nat.le_refl _
    · split
      · exact Nat.le_succ_of_le hblanks
      · exact Nat.le_succ_of_le hcomment

theorem length_afterBlanks (cs : List Char) : (afterBlanks cs).length ≤ cs.length :=
  (length_afterBlanks_afterComment cs).1

private theorem length_lt_of_afterBlanks {cs rest : List Char} {ch : Char}
    (h : afterBlanks cs = ch :: rest) : rest.length < cs.length := by
  have hle := length_afterBlanks cs
  rwa [h] at hle

private theorem length_drop_of_afterBlanks {cs here : List Char} (h : afterBlanks cs = here)
    (n : Nat) :
    (here.drop n).length ≤ cs.length := by
  rw [List.length_drop, ← h]
  exact Nat.le_trans (Nat.sub_le _ _) (length_afterBlanks cs)

/-- Put a character in front of the text of a string. -/
def Parse.before (ch : Char) (p : Parse (List Char)) : Parse (List Char) :=
  { p with outcome := p.outcome.map (ch :: ·) }

/-- A string behind its opening quote. -/
def string (symbols : SymbolTable) : List Char → Parse (List Char)
  | [] => ⟨.error .unexpectedEnd, [], symbols⟩
  | '"' :: rest => ⟨.ok [], rest, symbols⟩
  | ['\\'] => ⟨.error .unexpectedEnd, [], symbols⟩
  | '\\' :: letter :: cs =>
    match Text.unescapeLetter? letter with
    | some ch => (string symbols cs).before ch
    | none => ⟨.error .invalidEscape, cs, symbols⟩
  | ch :: cs => (string symbols cs).before ch

def symbol (symbols : SymbolTable) (name : String) (rest : List Char) : Parse Symbol :=
  match symbols.intern name with
  | (.ok x, symbols) => ⟨.ok x, rest, symbols⟩
  | (.error _, symbols) => ⟨.error .symbolTable, rest, symbols⟩

/-- The datum that a token denotes by itself, or the kind of its error. -/
def constant (token : List Char) : Option (Except ReadError.Kind Datum) :=
  if token.head? = some '#' then
    match Reader.parseBool? token with
    | some b => some (.ok (.bool b))
    | none => some (.error .unexpectedChar)
  else if Cursor.startsNumber token then
    match Reader.parseNumber? token with
    | some d => some (.ok d)
    | none => some (.error .invalidNumber)
  else none

def token (symbols : SymbolTable) (cs : List Char) : Parse Datum :=
  let chars := cs.takeWhile (fun ch => !isDelimiter ch)
  let rest := cs.dropWhile (fun ch => !isDelimiter ch)
  match constant chars with
  | some outcome => ⟨outcome, rest, symbols⟩
  | none =>
    match symbol symbols (String.ofList chars) rest with
    | ⟨outcome, rest, symbols⟩ => ⟨outcome.map .symbol, rest, symbols⟩

def atom (symbols : SymbolTable) (cs : List Char) : Parse Datum :=
  match cs with
  | '"' :: inside =>
    match string symbols inside with
    | ⟨outcome, rest, symbols⟩ => ⟨outcome.map (fun text => .str (String.ofList text)), rest, symbols⟩
  | cs => token symbols cs

def quotation (d : Datum) (rest : List Char) (symbols : SymbolTable) : Parse Datum :=
  match symbol symbols "quote" rest with
  | ⟨outcome, rest, symbols⟩ =>
    ⟨outcome.map (fun x => .pair (.symbol x) (.pair d .nil)), rest, symbols⟩

mutual

/-- A datum, where nothing else may stand. -/
def datum (symbols : SymbolTable) (cs : List Char) : Option (Parse Datum) :=
  match _ : afterBlanks cs with
  | [] => wrong .unexpectedEnd [] symbols
  | '(' :: inside => elements symbols inside false
  | '\'' :: inside => do
    match ← datum symbols inside with
    | ⟨.ok d, rest, symbols⟩ => return quotation d rest symbols
    | ⟨.error kind, rest, symbols⟩ => wrong kind rest symbols
  | ')' :: rest => wrong .unexpectedChar rest symbols
  | here =>
    if Cursor.startsLoneDot here then wrong .unexpectedChar (here.drop 1) symbols
    else return atom symbols here
termination_by (cs.length, 0)
decreasing_by all_goals exact .left _ _ (length_lt_of_afterBlanks ‹_›)

/-- The elements of a list up to its end. A point may follow if there are elements before. -/
def elements (symbols : SymbolTable) (cs : List Char) (nonempty : Bool) : Option (Parse Datum) :=
  match _ : afterBlanks cs with
  | [] => wrong .unexpectedEnd [] symbols
  | ')' :: rest => some ⟨.ok .nil, rest, symbols⟩
  | here =>
    if Cursor.startsLoneDot here then
      if nonempty then tail symbols (here.drop 1) else wrong .badDottedList (here.drop 1) symbols
    else do
      match ← datum symbols cs with
      | ⟨.error kind, rest, symbols⟩ => wrong kind rest symbols
      | ⟨.ok first, rest, symbols⟩ =>
        if rest.length < cs.length then
          match ← elements symbols rest true with
          | ⟨.error kind, rest, symbols⟩ => wrong kind rest symbols
          | ⟨.ok others, rest, symbols⟩ => some ⟨.ok (.pair first others), rest, symbols⟩
        else none
termination_by (cs.length, 2)
decreasing_by
  · exact .right' _ (length_drop_of_afterBlanks ‹_› 1) Nat.one_lt_two
  · exact .right _ Nat.two_pos
  · next hshorter => exact .left _ _ hshorter

/-- The tail of a list, behind its point. -/
def tail (symbols : SymbolTable) (cs : List Char) : Option (Parse Datum) :=
  match afterBlanks cs with
  | [] => wrong .unexpectedEnd [] symbols
  | ')' :: rest => wrong .badDottedList rest symbols
  | here =>
    if Cursor.startsLoneDot here then wrong .badDottedList (here.drop 1) symbols
    else do
      match ← datum symbols cs with
      | ⟨.error kind, rest, symbols⟩ => wrong kind rest symbols
      | ⟨.ok d, rest, symbols⟩ =>
        if rest.length < cs.length then closing symbols rest d else none
termination_by (cs.length, 1)

/-- The end of a list, behind its tail. -/
def closing (symbols : SymbolTable) (cs : List Char) (last : Datum) : Option (Parse Datum) :=
  match afterBlanks cs with
  | [] => wrong .unexpectedEnd [] symbols
  | ')' :: rest => some ⟨.ok last, rest, symbols⟩
  | here =>
    if Cursor.startsLoneDot here then wrong .badDottedList (here.drop 1) symbols
    else do
      match ← datum symbols cs with
      | ⟨.error kind, rest, symbols⟩ => wrong kind rest symbols
      | ⟨.ok _, rest, symbols⟩ => wrong .badDottedList rest symbols
termination_by (cs.length, 1)

end

/-- The first datum of a text, unless there is nothing but blanks and comments. -/
def read (symbols : SymbolTable) (cs : List Char) : Option (Parse (Option Datum)) :=
  match afterBlanks cs with
  | [] => some ⟨.ok none, [], symbols⟩
  | _ => do
    match ← datum symbols cs with
    | ⟨outcome, rest, symbols⟩ => return ⟨outcome.map some, rest, symbols⟩

end Grammar
end MiniScheme
