import Mathlib.Data.List.TakeWhile
import MiniScheme.Proofs.Reader.Again
/-! # What a token is read as

Before a token is cut off the reader looks at its first characters only: at a hash, and at an
optional sign with a digit, or a point and a digit, behind it. What follows is looked at when the
token has been cut off. Together this comes to one reading of each token: a truth value, an integer,
a decimal, a symbol, or one of two errors, each for exactly those tokens that are spelled that way.
-/
namespace MiniScheme.Reader

open MiniScheme.Text

inductive Sign where
  | none
  | plus
  | minus

namespace Sign

def chars : Sign → List Char
  | none => []
  | plus => ['+']
  | minus => ['-']

def negative : Sign → Bool
  | minus => true
  | _ => false

def apply (sign : Sign) (size : Nat) : Int := if sign.negative then -size else size

end Sign

def AllDigits (cs : List Char) : Prop := ∀ ch ∈ cs, isDigit ch = true

/-- An optional sign and one or more digits, and the integer they denote. -/
def SpellsInteger (token : List Char) (n : Int) : Prop :=
  ∃ (sign : Sign) (digits : List Char), token = sign.chars ++ digits ∧ digits ≠ [] ∧
    AllDigits digits ∧ n = sign.apply (Nat.ofDigitChars 10 digits 0)

/-- An optional sign and one or more digits with a point in front of, among or behind them, and the
double nearest to the decimal. -/
def SpellsFloat (token : List Char) (x : Double) : Prop :=
  ∃ (sign : Sign) (whole fraction : List Char), token = sign.chars ++ (whole ++ '.' :: fraction) ∧
    whole ++ fraction ≠ [] ∧ AllDigits (whole ++ fraction) ∧
    x = .ofDecimal sign.negative (Nat.ofDigitChars 10 (whole ++ fraction) 0) fraction.length

/-- An optional sign, then a digit or a point and a digit, and anything behind. -/
def BeginsNumber (token : List Char) : Prop :=
  ∃ (sign : Sign) (digit : Char) (rest : List Char), isDigit digit = true ∧
    (token = sign.chars ++ digit :: rest ∨ token = sign.chars ++ '.' :: digit :: rest)

def truthTokens : Bool → List (List Char)
  | true => ["#t".toList, "#true".toList]
  | false => ["#f".toList, "#false".toList]

variable {token after digits whole fraction : List Char} {symbols : SymbolTable} {r : Reader}
  {c : Cursor} {sign : Sign} {n : Int} {x : Double}

private theorem Sign.apply_eq_signed (sign : Sign) (size : Nat) :
    signed sign.negative size = sign.apply size := rfl

theorem splitSign_cons {ch : Char} (h : isDigit ch = true ∨ ch = '.') (cs : List Char) :
    splitSign (sign.chars ++ ch :: cs) = (sign.negative, ch :: cs) := by
  cases sign with
  | plus => rfl
  | minus => rfl
  | none =>
    have hplus : ch ≠ '+' := by rintro rfl; revert h; decide
    have hminus : ch ≠ '-' := by rintro rfl; revert h; decide
    simp [splitSign, Sign.chars, Sign.negative, hplus, hminus]

private theorem exists_sign (token : List Char) :
    ∃ sign : Sign, sign.negative = (splitSign token).1 ∧
      token = sign.chars ++ (splitSign token).2 := by
  unfold splitSign
  split
  · exact ⟨.minus, rfl, rfl⟩
  · exact ⟨.plus, rfl, rfl⟩
  · exact ⟨.none, rfl, rfl⟩

private theorem splitSign_integer (hne : digits ≠ []) (hdigits : AllDigits digits) :
    splitSign (sign.chars ++ digits) = (sign.negative, digits) := by
  obtain ⟨digit, rest, rfl⟩ := List.exists_cons_of_ne_nil hne
  exact splitSign_cons (.inl (hdigits digit List.mem_cons_self)) rest

private theorem splitSign_float (hdigits : AllDigits (whole ++ fraction)) :
    splitSign (sign.chars ++ (whole ++ '.' :: fraction)) =
      (sign.negative, whole ++ '.' :: fraction) := by
  cases whole with
  | nil => exact splitSign_cons (.inr rfl) fraction
  | cons digit whole => exact splitSign_cons (.inl (hdigits digit (by simp))) _

private theorem hasDigits_iff (whole fraction : List Char) :
    (whole.isEmpty && fraction.isEmpty) = false ↔ whole ++ fraction ≠ [] := by
  cases whole <;> simp

private theorem parseNumber?_integer (hne : digits ≠ []) (hdigits : AllDigits digits) :
    parseNumber? (sign.chars ++ digits) =
      (Word.ofInt? (sign.apply (Nat.ofDigitChars 10 digits 0))).map .int := by
  rw [parseNumber?_of_splitSign (splitSign_integer hne hdigits) hne hdigits,
    digitsValue_eq_ofDigitChars, Sign.apply_eq_signed]

private theorem parseNumber?_float (hne : whole ++ fraction ≠ [])
    (hdigits : AllDigits (whole ++ fraction)) :
    parseNumber? (sign.chars ++ (whole ++ '.' :: fraction)) =
      some (.float (.ofDecimal sign.negative (Nat.ofDigitChars 10 (whole ++ fraction) 0)
        fraction.length)) := by
  have hwhole : ∀ ch ∈ whole, isDigit ch = true :=
    fun ch hch => hdigits ch (List.mem_append_left _ hch)
  have hfraction : fraction.all isDigit = true :=
    List.all_eq_true.mpr fun ch hch => hdigits ch (List.mem_append_right _ hch)
  have htake : (whole ++ '.' :: fraction).takeWhile isDigit = whole := by
    rw [List.takeWhile_append_of_pos hwhole, List.takeWhile_cons_of_neg (by decide), List.append_nil]
  have hdrop : (whole ++ '.' :: fraction).dropWhile isDigit = '.' :: fraction := by
    rw [List.dropWhile_append_of_pos hwhole, List.dropWhile_cons_of_neg (by decide)]
  have hsome := (hasDigits_iff whole fraction).mpr hne
  simp only [parseNumber?, splitSign_float hdigits, htake, hdrop, hfraction, hsome,
    digitsValue_eq_ofDigitChars]
  rfl

/-- Nothing but an integer or a decimal is read as a number. -/
theorem spells_of_parseNumber? {d : Datum} (h : parseNumber? token = some d) :
    (∃ n, d = .int n ∧ SpellsInteger token n.toInt) ∨ ∃ x, d = .float x ∧ SpellsFloat token x := by
  obtain ⟨sign, hsign, htoken⟩ := exists_sign token
  have hsplit := @List.takeWhile_append_dropWhile _ isDigit (splitSign token).2
  have hwhole : AllDigits ((splitSign token).2.takeWhile isDigit) :=
    fun ch hch => List.mem_takeWhile_imp hch
  simp only [parseNumber?] at h
  split at h
  next hrest =>
    left
    rw [hrest, List.append_nil] at hsplit
    split at h
    · simp at h
    · next hne =>
      obtain ⟨n, hn, rfl⟩ := Option.map_eq_some_iff.mp h
      refine ⟨n, rfl, sign, (splitSign token).2.takeWhile isDigit, ?_, ?_, hwhole, ?_⟩
      · rwa [hsplit]
      · simpa using hne
      · rw [Word.toInt_ofInt? hn, digitsValue_eq_ofDigitChars, ← hsign, Sign.apply_eq_signed]
  next fraction hrest =>
    right
    split at h
    · next hdigits =>
      obtain ⟨hfraction, hne⟩ := (Bool.and_eq_true _ _).mp hdigits
      refine ⟨_, (Option.some.inj h).symm, sign, (splitSign token).2.takeWhile isDigit, fraction,
        ?_, ?_, ?_, ?_⟩
      · rwa [← hrest, hsplit]
      · exact (hasDigits_iff _ _).mp ((Bool.not_eq_true' _).mp hne)
      · intro ch hch
        exact (List.mem_append.mp hch).elim (hwhole ch) (List.all_eq_true.mp hfraction ch)
      · rw [digitsValue_eq_ofDigitChars, ← hsign]
    · simp at h
  next => simp at h

private theorem parseNumber?_eq_int_iff {n : Int64} :
    parseNumber? token = some (.int n) ↔ SpellsInteger token n.toInt := by
  constructor
  · intro h
    rcases spells_of_parseNumber? h with ⟨m, hm, hspells⟩ | ⟨x, hx, -⟩
    · rwa [Datum.int.inj hm]
    · cases hx
  · rintro ⟨sign, digits, rfl, hne, hdigits, hn⟩
    rw [parseNumber?_integer hne hdigits, ← hn, Word.ofInt?_toInt]
    rfl

private theorem parseNumber?_eq_float_iff :
    parseNumber? token = some (.float x) ↔ SpellsFloat token x := by
  constructor
  · intro h
    rcases spells_of_parseNumber? h with ⟨n, hn, -⟩ | ⟨y, hy, hspells⟩
    · cases hn
    · rwa [Datum.float.inj hy]
  · rintro ⟨sign, whole, fraction, rfl, hne, hdigits, rfl⟩
    exact parseNumber?_float hne hdigits

private theorem parseNumber?_eq_none_iff :
    parseNumber? token = none ↔
      (∀ n : Int64, ¬ SpellsInteger token n.toInt) ∧ ∀ x, ¬ SpellsFloat token x := by
  simp only [← parseNumber?_eq_int_iff, ← parseNumber?_eq_float_iff]
  constructor
  · intro h
    simp [h]
  · rintro ⟨hint, hfloat⟩
    cases hparse : parseNumber? token with
    | none => rfl
    | some d =>
      rcases spells_of_parseNumber? hparse with ⟨n, rfl, -⟩ | ⟨x, rfl, -⟩
      · exact absurd hparse (hint n)
      · exact absurd hparse (hfloat x)

example : parseNumber? "-9223372036854775808".toList = some (.int Int64.minValue) ∧
    parseNumber? "-9223372036854775809".toList = none ∧
    parseNumber? "+0009223372036854775807".toList = some (.int Int64.maxValue) ∧
    parseNumber? "9223372036854775808".toList = none := by decide +kernel

theorem SpellsInteger.beginsNumber (h : SpellsInteger token n) : BeginsNumber token := by
  obtain ⟨sign, digits, rfl, hne, hdigits, -⟩ := h
  obtain ⟨digit, rest, rfl⟩ := List.exists_cons_of_ne_nil hne
  exact ⟨sign, digit, rest, hdigits digit List.mem_cons_self, .inl rfl⟩

private theorem SpellsFloat.beginsNumber (h : SpellsFloat token x) : BeginsNumber token := by
  obtain ⟨sign, whole, fraction, rfl, hne, hdigits, -⟩ := h
  cases whole with
  | cons digit whole => exact ⟨sign, digit, _, hdigits digit (by simp), .inl rfl⟩
  | nil =>
    obtain ⟨digit, rest, rfl⟩ := List.exists_cons_of_ne_nil hne
    exact ⟨sign, digit, rest, hdigits digit List.mem_cons_self, .inr rfl⟩

private theorem startsDigit_iff (cs : List Char) :
    Cursor.startsDigit cs = true ↔
      ∃ digit rest, isDigit digit = true ∧ (cs = digit :: rest ∨ cs = '.' :: digit :: rest) := by
  unfold Cursor.startsDigit
  split
  next digit rest =>
    constructor
    · exact fun h => ⟨digit, rest, h, .inr rfl⟩
    · rintro ⟨d, cs, hd, heq | heq⟩
      · rw [← (List.cons.inj heq).1] at hd
        contradiction
      · rwa [(List.cons.inj (List.cons.inj heq).2).1]
  next digit rest hpoint =>
    constructor
    · exact fun h => ⟨digit, rest, h, .inl rfl⟩
    · rintro ⟨d, cs, hd, heq | heq⟩
      · rwa [(List.cons.inj heq).1]
      · exact absurd (List.cons.inj heq).2 (hpoint d cs (List.cons.inj heq).1)
  next => simp

theorem startsNumber_iff : Cursor.startsNumber token = true ↔ BeginsNumber token := by
  rw [Cursor.startsNumber_eq, startsDigit_iff]
  constructor
  · obtain ⟨sign, -, htoken⟩ := exists_sign token
    rintro ⟨digit, rest, hdigit, heq⟩
    refine ⟨sign, digit, rest, hdigit, ?_⟩
    rw [htoken]
    exact heq.imp (congrArg _) (congrArg _)
  · rintro ⟨sign, digit, rest, hdigit, rfl | rfl⟩
    · rw [splitSign_cons (.inl hdigit)]
      exact ⟨digit, rest, hdigit, .inl rfl⟩
    · rw [splitSign_cons (.inr rfl)]
      exact ⟨digit, rest, hdigit, .inr rfl⟩

private theorem BeginsNumber.head?_ne_hash (h : BeginsNumber token) : token.head? ≠ some '#' := by
  rw [← startsNumber_iff] at h
  intro hhash
  obtain ⟨cs, rfl⟩ := List.head?_eq_some_iff.mp hhash
  contradiction

private theorem parseBool?_eq_some_iff {b : Bool} :
    parseBool? token = some b ↔ token ∈ truthTokens b := by
  unfold parseBool?
  simp only [Bool.or_eq_true, decide_eq_true_eq]
  split
  · next htrue =>
    cases b with
    | true => simpa [truthTokens] using htrue
    | false => rcases htrue with rfl | rfl <;> simp [truthTokens]
  · next hnottrue =>
    cases b with
    | true => simpa [truthTokens] using hnottrue
    | false =>
      split
      · next hfalse => simpa [truthTokens] using hfalse
      · next hneither => simpa [truthTokens] using hneither

private theorem head?_of_mem_truthTokens {b : Bool} (h : token ∈ truthTokens b) :
    token.head? = some '#' := by
  cases b <;> rcases List.mem_pair.mp h with rfl | rfl <;> rfl

/-- What comes of a token that begins on line `line`, and of exactly which tokens. -/
structure ReadsAs (token : List Char) (line : Nat) (outcome : Except ReadError (Option Datum)) :
    Prop where
  truth : ∀ b, outcome = .ok (some (.bool b)) ↔ token ∈ truthTokens b
  badHash : outcome = .error (.unexpectedChar '#' line) ↔
    token.head? = some '#' ∧ ∀ b, token ∉ truthTokens b
  integer : ∀ n, outcome = .ok (some (.int n)) ↔ SpellsInteger token n.toInt
  float : ∀ x, outcome = .ok (some (.float x)) ↔ SpellsFloat token x
  badNumber : outcome = .error (.invalidNumber (String.ofList token) line) ↔
    BeginsNumber token ∧ (∀ n : Int64, ¬ SpellsInteger token n.toInt) ∧ ∀ x, ¬ SpellsFloat token x
  symbol : (∃ x, outcome = .ok (some (.symbol x)) ∧ x.name = String.ofList token) ↔
    token.head? ≠ some '#' ∧ ¬ BeginsNumber token

variable {line : Nat}

private theorem readsAs_hash (hhash : token.head? = some '#') :
    ReadsAs token line ((match parseBool? token with
      | some b => .ok (.bool b)
      | none => .error (.unexpectedChar '#' line) : Except ReadError Datum).map some) := by
  have hnumber : ¬ BeginsNumber token := fun h => h.head?_ne_hash hhash
  have hint : ∀ n, ¬ SpellsInteger token n := fun n h => hnumber h.beginsNumber
  have hfloat : ∀ x, ¬ SpellsFloat token x := fun x h => hnumber h.beginsNumber
  cases hparse : parseBool? token <;> constructor <;>
    simp [Except.map, ← parseBool?_eq_some_iff, hparse, hhash, hnumber, hint, hfloat]

private theorem readsAs_number (hnumber : BeginsNumber token) :
    ReadsAs token line ((match parseNumber? token with
      | some d => .ok d
      | none => .error (.invalidNumber (String.ofList token) line) : Except ReadError Datum).map
        some) := by
  have hhash := hnumber.head?_ne_hash
  have htruth : ∀ b, token ∉ truthTokens b := fun b h => hhash (head?_of_mem_truthTokens h)
  cases hparse : parseNumber? token with
  | none =>
    have hspells := parseNumber?_eq_none_iff.mp hparse
    constructor <;> simp [Except.map, hhash, hnumber, htruth, hspells]
  | some d =>
    have hspells : ¬ ((∀ n : Int64, ¬ SpellsInteger token n.toInt) ∧ ∀ x, ¬ SpellsFloat token x) := by
      rw [← parseNumber?_eq_none_iff, hparse]
      exact Option.some_ne_none d
    constructor
    case badNumber => simp [Except.map, hspells]
    all_goals
      rcases spells_of_parseNumber? hparse with ⟨n, rfl, -⟩ | ⟨x, rfl, -⟩ <;>
        simp [Except.map, ← parseNumber?_eq_int_iff, ← parseNumber?_eq_float_iff, hparse, hhash,
          hnumber, htruth]

private theorem readsAs_symbol (hhash : token.head? ≠ some '#') (hnumber : ¬ BeginsNumber token)
    {x : Symbol} (hname : x.name = String.ofList token) :
    ReadsAs token line (.ok (some (.symbol x))) := by
  have htruth : ∀ b, token ∉ truthTokens b := fun b h => hhash (head?_of_mem_truthTokens h)
  have hint : ∀ n, ¬ SpellsInteger token n := fun n h => hnumber h.beginsNumber
  have hfloat : ∀ x, ¬ SpellsFloat token x := fun x h => hnumber h.beginsNumber
  constructor <;> simp [hhash, hnumber, htruth, hint, hfloat, hname]

/-- Before its first delimiter a token is told by how it begins. -/
theorem readAtom_token (h : c.upcoming = token ++ after) (htoken : IsToken token)
    (hafter : Ends after) :
    readAtom c symbols =
      if token.head? = some '#' then readHash c symbols
      else if Cursor.startsNumber token then readNumber c symbols
      else readSymbol c symbols := by
  obtain ⟨hhead, hdelim⟩ := peek_of_token h htoken
  have hnumber : c.nextIsNumber = Cursor.startsNumber token := by
    rw [Cursor.nextIsNumber, h, Cursor.startsNumber_append htoken.nonempty hafter]
  rw [readAtom, if_neg (ne_of_isDelimiter rfl hdelim).symm, hnumber, hhead]
  simp only [Option.some.injEq]

private theorem ne_symbol_of_parseNumber? {d : Datum} (h : parseNumber? token = some d)
    (x : Symbol) :
    d ≠ .symbol x := by
  rcases spells_of_parseNumber? h with ⟨n, rfl, -⟩ | ⟨y, rfl, -⟩ <;> simp

theorem readAtom_spelled (h : c.upcoming = token ++ after) (htoken : IsToken token)
    (hafter : Ends after) (htable : symbols.InOrder)
    (haccepts : ∃ x symbols', symbols.intern (String.ofList token) = (.ok x, symbols')) :
    ∃ outcome symbols', readAtom c symbols = ⟨outcome, c.advance token.length, symbols'⟩ ∧
      ReadsAs token c.line (outcome.map some) ∧
      ∀ x, outcome = .ok (.symbol x) → symbols'.lookup (String.ofList token) = some x := by
  obtain ⟨htok, -⟩ := Cursor.readToken_eq h htoken.undelimited hafter
  have hcursor : c.readToken.2 = c.advance token.length := by
    rw [← htok]
    rfl
  rw [readAtom_token h htoken hafter]
  by_cases hhash : token.head? = some '#'
  · refine ⟨_, symbols, ?_, readsAs_hash hhash, ?_⟩
    · rewrite [if_pos hhash, readHash, htok, hcursor]
      rfl
    · intro x hx
      cases hparse : parseBool? token <;> simp [hparse] at hx
  · rw [if_neg hhash]
    by_cases hnumber : Cursor.startsNumber token = true
    · refine ⟨_, symbols, ?_, readsAs_number (startsNumber_iff.mp hnumber), ?_⟩
      · rewrite [if_pos hnumber, readNumber, htok, hcursor]
        rfl
      · intro x hx
        cases hparse : parseNumber? token with
        | none => simp [hparse] at hx
        | some d => exact absurd (by simpa [hparse] using hx) (ne_symbol_of_parseNumber? hparse x)
    · obtain ⟨x, symbols', hintern⟩ := haccepts
      have hlookup := htable.lookup_of_intern hintern
      have hname := (htable.grows_of_intern hintern).inOrder.name_of_lookup hlookup
      refine ⟨.ok (.symbol x), symbols', ?_,
        readsAs_symbol hhash (mt startsNumber_iff.mpr hnumber) hname, ?_⟩
      · have hne : ¬ token.isEmpty = true := by simpa using htoken.nonempty
        simp only [if_neg hnumber, readSymbol, htok, hcursor, hne, hintern]
        rfl
      · intro y hy
        obtain rfl : x = y := by simpa using hy
        exact hlookup

theorem read_token {outcome : Except ReadError Datum} {c' : Cursor} {symbols' : SymbolTable}
    (h : r.skipBlanks.cursor.upcoming = token ++ after) (htoken : IsToken token)
    (hread : readAtom r.skipBlanks.cursor symbols = ⟨outcome, c', symbols'⟩) :
    r.read symbols = ⟨outcome.map some, { r with cursor := c' }, symbols'⟩ := by
  obtain ⟨-, hdelim⟩ := peek_of_token h htoken
  have hne : ∀ ch, isDelimiter ch = true → ¬ r.skipBlanks.cursor.peek = ch :=
    fun ch hch => (ne_of_isDelimiter hch hdelim).symm
  have hatom : AtAtom r.skipBlanks.cursor := by
    refine ⟨hne '(' rfl, hne '\'' rfl, hne ')' rfl, ?_⟩
    rw [Cursor.nextIsLoneDot, h, Cursor.startsLoneDot_append htoken]
  obtain ⟨ch, cs, hcons⟩ := List.exists_cons_of_ne_nil htoken.nonempty
  have hnext : r.skipBlanks.cursor.upcoming = ch :: (cs ++ after) := by
    rw [h, hcons]
    rfl
  rw [read_eq_found (by simp [hnext]), readDatum_eq_resume hnext, step_of_atom hatom, hread]
  cases outcome <;> rfl

/-- A token that begins a datum and stands in front of a delimiter or of the end is used up, no more
and no less, and comes to what it spells. The bound on the capacity holds of every table that fits a
memory of 64-bit addresses. -/
theorem token_is_read_as_spelled {names : List String} (htoken : IsToken token)
    (hafter : Ends after) (hstands : r.skipBlanks.cursor.upcoming = token ++ after)
    (htable : symbols.Represents names) (hunlimited : symbols.maxCapacity = none)
    (hcapacity : 2 * (symbols.capacity + 1) < 0x10000000000000000) :
    let reading := r.read symbols
    reading.reader.cursor = r.skipBlanks.cursor.advance token.length ∧
      reading.reader.cursor.upcoming = after ∧
      ReadsAs token r.skipBlanks.cursor.line reading.outcome ∧
      ∀ x, reading.outcome = .ok (some (.symbol x)) →
        reading.symbols.lookup (String.ofList token) = some x := by
  intro reading
  have hgrow : symbols.CanGrow := ⟨_, if_pos hcapacity, by simp [hunlimited]⟩
  obtain ⟨x, grown, hintern, -⟩ := htable.intern_of_canGrow hgrow (String.ofList token)
  obtain ⟨outcome, symbols', hatom, hspelled, hsymbol⟩ :=
    readAtom_spelled hstands htoken hafter ⟨names, htable⟩ ⟨x, grown, hintern⟩
  have hread : reading = _ := read_token hstands htoken hatom
  rw [hread]
  refine ⟨rfl, ?_, hspelled, ?_⟩
  · show (r.skipBlanks.cursor.advance token.length).upcoming = after
    rw [Cursor.upcoming_advance, hstands, List.drop_left]
  · intro y hy
    cases outcome with
    | error e => simp [Except.map] at hy
    | ok d =>
      apply hsymbol y
      simpa [Except.map] using hy

/-- Zeros in front of a number do not count, and a comment in front of it is skipped. -/
theorem negative_seven_with_zeros_is_read :
    ((ofString "; seven\n -007)").read (.withCapacity 1 none fun _ => 0)).outcome =
      .ok (some (.int (-7))) := by
  have htoken : IsToken "-007".toList := ⟨by decide, by decide, by simp [isDelimiter, isBlank]⟩
  have hafter : Ends [')'] := ends_cons (by decide) []
  have hread := token_is_read_as_spelled (r := ofString "; seven\n -007)") htoken hafter (by decide)
    (SymbolTable.represents_withCapacity 1 none fun _ => 0) rfl (by decide +kernel)
  rw [hread.2.2.1.integer]
  exact ⟨.minus, "007".toList, rfl, by decide, by simp [AllDigits, isDigit], by decide⟩

end MiniScheme.Reader
