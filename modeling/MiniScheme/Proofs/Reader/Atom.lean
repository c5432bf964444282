import MiniScheme.Printer
import MiniScheme.Proofs.Store.Loading
import MiniScheme.Reader.Atom
/-! # Atoms read back from their text

Every atom that has a notation of its own is read from what the printer writes for it, whatever
follows, as long as what follows begins with a delimiter. A string ends with its closing quote; all
other atoms are tokens.
-/
namespace MiniScheme

namespace Text

/-- No token goes on into the text. -/
def Ends (after : List Char) : Prop := ∀ ch ∈ after.head?, isDelimiter ch = true

theorem ends_nil : Ends [] := by
  intro ch h
  simp at h

theorem ends_cons {ch : Char} (h : isDelimiter ch = true) (cs : List Char) : Ends (ch :: cs) := by
  intro c hc
  rw [List.head?_cons, Option.mem_some_iff] at hc
  rwa [← hc]

/-- A text that is read as one token and is not the point of a list. -/
structure IsToken (token : List Char) : Prop where
  nonempty : token ≠ []
  isNotPoint : token ≠ ['.']
  undelimited : ∀ ch ∈ token, isDelimiter ch = false

theorem ne_of_isDelimiter {c d : Char} (hc : isDelimiter c = true) (hd : isDelimiter d = false) :
    c ≠ d := by
  rintro rfl
  rw [hc] at hd
  contradiction

namespace Cursor

variable {c : Cursor} {token after : List Char}

theorem tokenChars_append (htoken : ∀ ch ∈ token, isDelimiter ch = false) (hafter : Ends after) :
    tokenChars (token ++ after) = token := by
  have hall : ∀ ch ∈ token, (!isDelimiter ch) = true := by
    intro ch hch
    rw [htoken ch hch]
    rfl
  rw [tokenChars, List.takeWhile_append_of_pos hall]
  cases after with
  | nil => simp
  | cons ch after =>
    have hch := hafter ch rfl
    rw [List.takeWhile_cons_of_neg (by simp [hch]), List.append_nil]

theorem readToken_eq (h : c.upcoming = token ++ after)
    (htoken : ∀ ch ∈ token, isDelimiter ch = false) (hafter : Ends after) :
    c.readToken.1 = token ∧ c.readToken.2.upcoming = after := by
  have hchars : tokenChars c.upcoming = token := by rw [h, tokenChars_append htoken hafter]
  refine ⟨hchars, ?_⟩
  rw [readToken, hchars, upcoming_advance, h, List.drop_left]

theorem startsLoneDot_append (htoken : IsToken token) :
    startsLoneDot (token ++ after) = false := by
  match token with
  | [] => exact absurd rfl htoken.nonempty
  | [ch] =>
    have hch : ch ≠ '.' := fun h => htoken.isNotPoint (by rw [h])
    simp [startsLoneDot, hch]
  | ch :: d :: cs =>
    have hd := htoken.undelimited d (by simp)
    by_cases hch : ch = '.'
    · rw [hch]
      exact hd
    · simp [startsLoneDot, hch]

/-- What a number begins with after its sign: a digit, or a point and a digit. -/
def startsDigit : List Char → Bool
  | '.' :: d :: _ => isDigit d
  | d :: _ => isDigit d
  | [] => false

theorem startsNumber_eq (cs : List Char) :
    startsNumber cs = startsDigit (Reader.splitSign cs).2 := by
  match cs with
  | [] => rfl
  | ch :: cs =>
    by_cases hminus : ch = '-'
    · rw [hminus]
      rfl
    · by_cases hplus : ch = '+'
      · rw [hplus]
        rfl
      · simp [startsNumber, Reader.splitSign, hminus, hplus]
        rfl

private theorem splitSign_append (hne : token ≠ []) :
    (Reader.splitSign (token ++ after)).2 = (Reader.splitSign token).2 ++ after := by
  match token with
  | [] => contradiction
  | ch :: cs =>
    rw [List.cons_append]
    by_cases hminus : ch = '-'
    · rw [hminus]
      rfl
    · by_cases hplus : ch = '+'
      · rw [hplus]
        rfl
      · simp [Reader.splitSign, hminus, hplus]

private theorem startsDigit_append (hafter : Ends after) (cs : List Char) :
    startsDigit (cs ++ after) = startsDigit cs := by
  match after, cs with
  | [], cs => rw [List.append_nil]
  | ch :: after, cs =>
    have hdelim := hafter ch rfl
    have hdot : ch ≠ '.' := ne_of_isDelimiter hdelim (by decide)
    have hdigit : isDigit ch = false := by
      cases h : isDigit ch with
      | false => rfl
      | true => exact absurd rfl (ne_of_isDelimiter hdelim (not_isDelimiter_of_isDigit h))
    match cs with
    | [] => simp [startsDigit, hdot, hdigit]
    | [d] =>
      by_cases hd : d = '.'
      · rw [hd]
        exact hdigit
      · simp [startsDigit, hd]
    | d :: e :: cs =>
      by_cases hd : d = '.'
      · rw [hd]
        rfl
      · simp [startsDigit, hd]

theorem startsNumber_append (hne : token ≠ []) (hafter : Ends after) :
    startsNumber (token ++ after) = startsNumber token := by
  rw [startsNumber_eq, startsNumber_eq, splitSign_append hne, startsDigit_append hafter]

end Cursor

def escaped (c : Char) : List Char :=
  match escapeLetter? c with
  | some letter => ['\\', letter]
  | none => [c]

private theorem toList_quoted (text : String) :
    (quoted text).toList = '"' :: (text.toList.flatMap escaped ++ ['"']) := by
  have hfold : ∀ (cs : List Char) (out : String),
      (cs.foldl pushEscaped out).toList = out.toList ++ cs.flatMap escaped := by
    intro cs
    induction cs with
    | nil => simp
    | cons c cs ih =>
      intro out
      rw [List.foldl_cons, ih, List.flatMap_cons, pushEscaped, escaped]
      cases escapeLetter? c <;> simp
  rw [quoted, String.toList_push, hfold]
  rfl

end Text

namespace Reader

open MiniScheme.Text

private theorem scanString_escaped (reversed : List Char) (count : Nat) (c : Char)
    (cs : List Char) :
    scanString reversed count (escaped c ++ cs) =
      scanString (c :: reversed) (count + (escaped c).length) cs := by
  rw [escaped]
  cases hletter : escapeLetter? c with
  | some letter =>
    simp [scanString, unescape_of_escape hletter]
  | none =>
    have hquote : c = '"' → False := by
      rintro rfl
      simp [escapeLetter?] at hletter
    have hslash : c = '\\' → False := by
      rintro rfl
      simp [escapeLetter?] at hletter
    rw [List.singleton_append, scanString, List.length_singleton]
    · exact hquote
    · exact fun h _ => hslash h
    · exact fun _ _ h _ => hslash h

private theorem scanString_quoted (text after : List Char) (reversed : List Char) (count : Nat) :
    scanString reversed count (text.flatMap escaped ++ '"' :: after) =
      .closed (reversed.reverse ++ text) (count + (text.flatMap escaped).length + 1) := by
  induction text generalizing reversed count with
  | nil => simp [scanString]
  | cons c text ih =>
    rw [List.flatMap_cons, List.append_assoc, scanString_escaped, ih]
    simp [Nat.add_assoc]

private theorem isDigit_of_mem_toDigits {n : Nat} {d : Char} (h : d ∈ Nat.toDigits 10 n) :
    isDigit d = true := by
  have hdigit := Nat.isDigit_of_mem_toDigits (by decide) (by decide) h
  simpa [isDigit, Char.isDigit, Char.le_def] using hdigit

theorem digitsValue_eq_ofDigitChars (cs : List Char) : digitsValue cs = Nat.ofDigitChars 10 cs 0 := by
  simp only [digitsValue, Nat.ofDigitChars_eq_foldl, Nat.mul_comm]

private theorem digitsValue_toDigits (n : Nat) : digitsValue (Nat.toDigits 10 n) = n := by
  rw [digitsValue_eq_ofDigitChars, Nat.ofDigitChars_ten_toDigits]

private theorem splitSign_digits {cs : List Char} (h : ∀ d ∈ cs, isDigit d = true) :
    splitSign cs = (false, cs) := by
  cases cs with
  | nil => rfl
  | cons d cs =>
    have hd := h d (by simp)
    have hminus : d ≠ '-' := by
      rintro rfl
      simp [isDigit] at hd
    have hplus : d ≠ '+' := by
      rintro rfl
      simp [isDigit] at hd
    simp [splitSign, hminus, hplus]

theorem parseNumber?_of_splitSign {token digits : List Char} {negative : Bool}
    (hsign : splitSign token = (negative, digits)) (hne : digits ≠ [])
    (hdigits : ∀ d ∈ digits, isDigit d = true) :
    parseNumber? token = (Word.ofInt? (signed negative (digitsValue digits))).map .int := by
  have htake : digits.takeWhile isDigit = digits := by
    rw [← List.append_nil digits, List.takeWhile_append_of_pos hdigits, List.takeWhile_nil]
  have hdrop : digits.dropWhile isDigit = [] := by
    rw [← List.append_nil digits, List.dropWhile_append_of_pos hdigits, List.dropWhile_nil]
  simp only [parseNumber?, hsign, htake, hdrop]
  rw [if_neg (by simpa using hne)]

theorem exists_toDigits (n : Int64) :
    ∃ negative size, signed negative size = n.toInt ∧
      (toString n.toInt).toList = (if negative then ['-'] else []) ++ Nat.toDigits 10 size := by
  rw [Int.toString_eq_repr, Int.repr_eq_if]
  by_cases hsign : 0 ≤ n.toInt
  · refine ⟨false, n.toInt.toNat, Int.toNat_of_nonneg hsign, ?_⟩
    rw [if_pos hsign, Nat.toList_repr]
    rfl
  · refine ⟨true, (-n.toInt).toNat, ?_, ?_⟩
    · rw [signed, if_pos rfl]
      omega
    · rw [if_neg hsign, String.toList_append, Nat.toList_repr]
      rfl

private theorem splitSign_toDigits (negative : Bool) (size : Nat) :
    splitSign ((if negative then ['-'] else []) ++ Nat.toDigits 10 size) =
      (negative, Nat.toDigits 10 size) := by
  cases negative with
  | true => rfl
  | false => exact splitSign_digits fun d hd => isDigit_of_mem_toDigits hd

/-- An integer is read back from its digits, up to both ends of the range. -/
theorem parseNumber?_toString (n : Int64) :
    parseNumber? (toString n.toInt).toList = some (.int n) := by
  obtain ⟨negative, size, hsize, htext⟩ := exists_toDigits n
  rw [htext, parseNumber?_of_splitSign (splitSign_toDigits negative size) Nat.toDigits_ne_nil
    (fun d hd => isDigit_of_mem_toDigits hd), digitsValue_toDigits, hsize, Word.ofInt?_toInt]
  rfl

private theorem startsNumber_toString (n : Int64) :
    Cursor.startsNumber (toString n.toInt).toList = true := by
  obtain ⟨negative, size, -, htext⟩ := exists_toDigits n
  rw [htext, Cursor.startsNumber_eq, splitSign_toDigits]
  cases hdigits : Nat.toDigits 10 size with
  | nil => exact absurd hdigits Nat.toDigits_ne_nil
  | cons d cs =>
    have hd : isDigit d = true := isDigit_of_mem_toDigits (by rw [hdigits]; simp)
    have hpoint : d ≠ '.' := by
      rintro rfl
      simp [isDigit] at hd
    simpa [Cursor.startsDigit, hpoint] using hd

private theorem isToken_toString (n : Int64) : IsToken (toString n.toInt).toList := by
  obtain ⟨negative, size, -, htext⟩ := exists_toDigits n
  refine ⟨?_, ?_, ?_⟩
  · rw [htext]
    exact List.append_ne_nil_of_right_ne_nil _ Nat.toDigits_ne_nil
  · intro hpoint
    have hnumber := startsNumber_toString n
    rw [hpoint] at hnumber
    contradiction
  · intro ch hch
    rw [htext, List.mem_append] at hch
    rcases hch with hch | hch
    · cases negative with
      | true =>
        rw [List.mem_singleton.mp hch]
        decide
      | false => simp at hch
    · exact not_isDelimiter_of_isDigit (isDigit_of_mem_toDigits hch)

end Reader

structure Nameable (name : String) : Prop where
  isToken : Text.IsToken name.toList
  isNotHash : name.toList.head? ≠ some '#'
  isNotNumber : Text.Cursor.startsNumber name.toList = false

/-- An atom that has a notation, which for a symbol is its name in the table. -/
def Readable (symbols : SymbolTable) : Value → Prop
  | .nil => True
  | .bool _ => True
  | .int _ => True
  | .str _ => True
  | .symbol x => symbols.lookup x.name = some x ∧ Nameable x.name
  | _ => False

namespace Reader

open MiniScheme.Text

variable {c : Cursor} {symbols : SymbolTable} {token after : List Char}

theorem peek_of_token (hc : c.upcoming = token ++ after) (htoken : IsToken token) :
    token.head? = some c.peek ∧ isDelimiter c.peek = false := by
  cases token with
  | nil => exact absurd rfl htoken.nonempty
  | cons ch cs =>
    rw [Cursor.peek_of_upcoming hc]
    exact ⟨rfl, htoken.undelimited ch (by simp)⟩

theorem intern_of_lookup {name : String} {x : Symbol} (h : symbols.lookup name = some x) :
    symbols.intern name = (.ok x, symbols) := by
  unfold SymbolTable.lookup at h
  unfold SymbolTable.intern
  cases hsearch : SymbolTable.search symbols.hash symbols.slots name <;> simp_all

private theorem readHash_eq {b : Bool} (hc : c.upcoming = token ++ after) (htoken : IsToken token)
    (hafter : Ends after) (hparse : parseBool? token = some b) :
    ∃ c', c'.upcoming = after ∧ readHash c symbols = ⟨.ok (.bool b), c', symbols⟩ := by
  obtain ⟨htok, hrest⟩ := Cursor.readToken_eq hc htoken.undelimited hafter
  exact ⟨_, hrest, by simp [readHash, htok, hparse]⟩

private theorem readNumber_eq {d : Datum} (hc : c.upcoming = token ++ after)
    (htoken : IsToken token) (hafter : Ends after) (hparse : parseNumber? token = some d) :
    ∃ c', c'.upcoming = after ∧ readNumber c symbols = ⟨.ok d, c', symbols⟩ := by
  obtain ⟨htok, hrest⟩ := Cursor.readToken_eq hc htoken.undelimited hafter
  exact ⟨_, hrest, by simp [readNumber, htok, hparse]⟩

private theorem readSymbol_eq {x : Symbol} (hc : c.upcoming = x.name.toList ++ after)
    (htoken : IsToken x.name.toList) (hafter : Ends after)
    (hlookup : symbols.lookup x.name = some x) :
    ∃ c', c'.upcoming = after ∧ readSymbol c symbols = ⟨.ok (.symbol x), c', symbols⟩ := by
  obtain ⟨htok, hrest⟩ := Cursor.readToken_eq hc htoken.undelimited hafter
  refine ⟨_, hrest, ?_⟩
  have hne : x.name.toList.isEmpty = false := by simpa using htoken.nonempty
  simp only [readSymbol, htok, hne, String.ofList_toList, intern_of_lookup hlookup]
  rfl

private theorem readString_eq (text : String) (hc : c.upcoming = (quoted text).toList ++ after) :
    ∃ c', c'.upcoming = after ∧ readString c symbols = ⟨.ok (.str text), c', symbols⟩ := by
  have hscan : scanString [] 0 (c.upcoming.drop 1) =
      .closed text.toList ((text.toList.flatMap escaped).length + 1) := by
    rw [hc, toList_quoted, List.cons_append, List.drop_one, List.tail_cons, List.append_assoc]
    have hquoted := scanString_quoted text.toList after [] 0
    simpa using hquoted
  refine ⟨c.advance ((text.toList.flatMap escaped).length + 1 + 1), ?_, ?_⟩
  · rw [Cursor.upcoming_advance, hc, toList_quoted]
    exact List.drop_left' (by rw [List.length_cons, List.length_append]; rfl)
  · simp only [readString, hscan, StringScan.count, String.ofList_toList]

def boolToken (b : Bool) : List Char := ['#', if b then 't' else 'f']

private theorem isToken_boolToken (b : Bool) : IsToken (boolToken b) := by
  refine ⟨by simp [boolToken], by simp [boolToken], ?_⟩
  intro ch hch
  rcases List.mem_cons.mp hch with rfl | hch
  · rfl
  · rw [List.mem_singleton.mp hch]
    cases b <;> rfl

private theorem toList_atomText_bool (s : Store) (style : PrintStyle) (b : Bool) :
    (Printer.atomText s style (.bool b)).toList = boolToken b := by
  cases b <;> simp [Printer.atomText, boolToken]

/-- Reading undoes printing on atoms. -/
theorem readAtom_atomText {s : Store} {v : Value} (hv : Readable symbols v) (hnil : v ≠ .nil)
    (hc : c.upcoming = (Printer.atomText s .written v).toList ++ after) (hafter : Ends after) :
    ∃ c', c'.upcoming = after ∧ readAtom c symbols = ⟨.ok (Datum.ofAtom v), c', symbols⟩ := by
  unfold readAtom
  cases v with
  | nil => contradiction
  | bool b =>
    rw [toList_atomText_bool] at hc
    have hpeek : c.peek = '#' := Cursor.peek_of_upcoming hc
    rw [if_neg (by rw [hpeek]; decide), if_pos hpeek]
    exact readHash_eq hc (isToken_boolToken b) hafter (by cases b <;> rfl)
  | int n =>
    rw [Printer.atomText] at hc
    have htoken := isToken_toString n
    have hnumber := startsNumber_toString n
    obtain ⟨hhead, hdelim⟩ := peek_of_token hc htoken
    have hhash : c.peek ≠ '#' := by
      intro hpeek
      rw [hpeek] at hhead
      obtain ⟨cs, hcs⟩ := List.head?_eq_some_iff.mp hhead
      rw [hcs] at hnumber
      contradiction
    have hnext : c.nextIsNumber = true := by
      rw [Cursor.nextIsNumber, hc, ← hnumber]
      exact Cursor.startsNumber_append htoken.nonempty hafter
    rw [if_neg (ne_of_isDelimiter rfl hdelim).symm, if_neg hhash, if_pos hnext]
    exact readNumber_eq hc htoken hafter (parseNumber?_toString n)
  | str text =>
    have hpeek : c.peek = '"' :=
      Cursor.peek_of_upcoming (by rw [hc, Printer.atomText, toList_quoted]; rfl)
    rw [if_pos hpeek]
    exact readString_eq text hc
  | symbol x =>
    rw [Printer.atomText] at hc
    obtain ⟨hlookup, htoken, hhash, hnumber⟩ := hv
    obtain ⟨hhead, hdelim⟩ := peek_of_token hc htoken
    have hnext : ¬ c.nextIsNumber = true := by
      rw [Cursor.nextIsNumber, hc, Bool.not_eq_true, ← hnumber]
      exact Cursor.startsNumber_append htoken.nonempty hafter
    have hpeek : c.peek ≠ '#' := fun h => hhash (by rw [hhead, h])
    rw [if_neg (ne_of_isDelimiter rfl hdelim).symm, if_neg hpeek, if_neg hnext]
    exact readSymbol_eq hc htoken hafter hlookup
  | _ => exact hv.elim

/-- An atom other than the empty list begins with the quote of a string or with a character of a
token, and not with the point of a list. -/
theorem atomText_start {s : Store} {v : Value} (hv : Readable symbols v) (hnil : v ≠ .nil)
    (after : List Char) :
    ∃ ch cs, (Printer.atomText s .written v).toList ++ after = ch :: cs ∧
      (ch = '"' ∨ isDelimiter ch = false) ∧ Cursor.startsLoneDot (ch :: cs) = false := by
  have htokenStart : ∀ token, IsToken token →
      ∃ ch cs, token ++ after = ch :: cs ∧
        (ch = '"' ∨ isDelimiter ch = false) ∧ Cursor.startsLoneDot (ch :: cs) = false := by
    intro token htoken
    have hdot := @Cursor.startsLoneDot_append token after htoken
    cases token with
    | nil => exact absurd rfl htoken.nonempty
    | cons ch cs => exact ⟨ch, cs ++ after, rfl, .inr (htoken.undelimited ch (by simp)), hdot⟩
  cases v with
  | nil => contradiction
  | bool b =>
    rw [toList_atomText_bool]
    exact htokenStart _ (isToken_boolToken b)
  | int n => exact htokenStart _ (isToken_toString n)
  | str text =>
    rw [Printer.atomText, toList_quoted]
    exact ⟨'"', _, rfl, .inl rfl, rfl⟩
  | symbol x => exact htokenStart _ hv.2.isToken
  | _ => exact hv.elim

end Reader
end MiniScheme
