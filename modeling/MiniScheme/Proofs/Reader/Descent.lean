import MiniScheme.Proofs.Reader.Lists
import MiniScheme.Proofs.Reader.Position
import MiniScheme.Proofs.Reader.Tokens
import MiniScheme.Proofs.SymbolTable.Growth
/-! # The reader follows the grammar

The reader keeps open forms on a stack, the grammar descends into them. Inside of any forms, what is
read up to the end of the innermost one is the datum of the grammar, and then that datum is handed to
the forms around; or else there is an error of the kind that the grammar gives. From this it follows
that the reader comes to what the grammar says, from its first datum on to its last, and also when
reading goes on behind an error.
-/
namespace MiniScheme

open Text (Cursor isDelimiter)
open Grammar (Parse)

/-- What a reading step comes to, in terms of the grammar. -/
def Reading.parse {α : Type} (reading : Reading α) : Parse α :=
  ⟨reading.outcome.mapError ReadError.kind, reading.reader.cursor.upcoming, reading.symbols⟩

namespace Reader

/-- The table is in order, and what the reader takes for the symbol `quote` is that symbol. -/
structure Ready (r : Reader) (symbols : SymbolTable) : Prop where
  inOrder : symbols.InOrder
  quotation : ∀ q, r.quotation = some q → symbols.lookup "quote" = some q

theorem Ready.grow {r r' : Reader} {symbols symbols' : SymbolTable} (h : r.Ready symbols)
    (hsymbols : symbols.Grows symbols') (hquotation : r'.quotation = r.quotation) :
    r'.Ready symbols' := by
  refine ⟨hsymbols.inOrder, ?_⟩
  intro q hq
  rw [hquotation] at hq
  exact hsymbols.keeps _ q (h.quotation q hq)

private theorem Ready.moved {r : Reader} {symbols : SymbolTable} (h : r.Ready symbols) :
    r.skipBlanks.moved.Ready symbols :=
  ⟨h.inOrder, h.quotation⟩

theorem Ready.quoteSymbol {r : Reader} {symbols symbols' : SymbolTable} (h : r.Ready symbols)
    {answer : Except SymbolTableError Symbol} (hintern : symbols.intern "quote" = (answer, symbols')) :
    ∃ r', r'.cursor = r.cursor ∧ r'.Ready symbols' ∧
      r.quoteSymbol symbols = ⟨answer.mapError .symbolTable, r', symbols'⟩ := by
  have hgrows := h.inOrder.grows_of_intern hintern
  unfold Reader.quoteSymbol
  cases hq : r.quotation with
  | some q =>
    rw [intern_of_lookup (h.quotation q hq)] at hintern
    obtain ⟨rfl, rfl⟩ := Prod.mk.inj hintern
    exact ⟨r, rfl, h, rfl⟩
  | none =>
    rw [hintern]
    cases answer with
    | error e => exact ⟨r, rfl, h.grow hgrows rfl, rfl⟩
    | ok x =>
      refine ⟨{ r with quotation := some x }, rfl, ⟨hgrows.inOrder, ?_⟩, rfl⟩
      intro q hq'
      obtain rfl : x = q := by simpa using hq'
      exact h.inOrder.lookup_of_intern hintern

theorem upcoming_skipBlanks_eq (r : Reader) :
    r.skipBlanks.cursor.upcoming = Grammar.afterBlanks r.cursor.upcoming := by
  rw [skipBlanks, Cursor.skipBlanks, Cursor.upcoming_advance, (Grammar.drop_blankLength _).1]

variable {r : Reader} {symbols : SymbolTable} {stack : List Unclosed} {ch : Char}
  {cs rest : List Char}

theorem readDatum_end (h : r.skipBlanks.cursor.upcoming = []) :
    r.readDatum symbols stack =
      ⟨.error (.unexpectedEnd (unfinished stack) r.skipBlanks.cursor.line), r.skipBlanks,
        symbols⟩ := by
  have hend : r.skipBlanks.cursor.atEnd = true := by simp [Cursor.atEnd_eq, h]
  rw [readDatum, dif_pos hend]

private theorem readDatum_close_error (h : r.skipBlanks.cursor.upcoming = ')' :: rest) {e :
    ReadError}
    (hclose : close r.skipBlanks.cursor.line stack = .error e) :
    r.readDatum symbols stack = ⟨.error e, r.skipBlanks.moved, symbols⟩ := by
  rw [readDatum_eq_resume h, (StepsTo.unclosed (Cursor.peek_of_upcoming h) hclose).eq]
  rfl

private theorem readDatum_point (h : r.skipBlanks.cursor.upcoming = ch :: rest)
    (hdot : Cursor.startsLoneDot (ch :: rest) = true) :
    r.readDatum symbols stack =
      match dot r.skipBlanks.cursor.line stack with
      | .ok stack => r.skipBlanks.moved.readDatum symbols stack
      | .error e => ⟨.error e, r.skipBlanks.moved, symbols⟩ := by
  have hnext : r.skipBlanks.cursor.nextIsLoneDot = true := by rw [Cursor.nextIsLoneDot, h, hdot]
  rw [readDatum_eq_resume h, step_of_point hnext]
  cases dot r.skipBlanks.cursor.line stack <;> rfl

theorem readDatum_token (h : r.skipBlanks.cursor.upcoming = ch :: rest)
    (hopen : ch ≠ '(') (hquote : ch ≠ '\'') (hclose : ch ≠ ')')
    (hdot : Cursor.startsLoneDot (ch :: rest) = false) :
    r.readDatum symbols stack =
      match readAtom r.skipBlanks.cursor symbols with
      | ⟨.ok d, cursor, symbols⟩ =>
        resume ({ r with cursor := cursor : Reader }.complete symbols stack d)
      | ⟨.error e, cursor, symbols⟩ => ⟨.error e, { r with cursor := cursor }, symbols⟩ := by
  have hatom : AtAtom r.skipBlanks.cursor := by
    rw [← Cursor.peek_of_upcoming h] at hopen hquote hclose
    exact ⟨hopen, hquote, hclose, by rw [Cursor.nextIsLoneDot, h, hdot]⟩
  rw [readDatum_eq_resume h, step_of_atom hatom]
  rcases readAtom r.skipBlanks.cursor symbols with ⟨outcome, cursor, symbols'⟩
  cases outcome <;> rfl

theorem grows_readAtom (h : symbols.InOrder) (c : Cursor) :
    symbols.Grows (readAtom c symbols).symbols := by
  have hsame := h.grows_refl
  unfold readAtom
  split
  · exact hsame
  split
  · exact hsame
  split
  · exact hsame
  unfold readSymbol
  dsimp only
  split
  · exact hsame
  split
  · next hintern => exact h.grows_of_intern hintern
  · next hintern => exact h.grows_of_intern hintern

/-- Only a datum may stand directly inside of the innermost form. -/
def TakesDatum : List Unclosed → Prop
  | [] => True
  | .quotation :: _ => True
  | _ => False

/-- The text begins with a datum, whatever may stand there. -/
def StartsDatum (cs : List Char) : Prop :=
  ∃ ch rest, cs = ch :: rest ∧ ch ≠ ')' ∧ Cursor.startsLoneDot (ch :: rest) = false

/-- A reading inside of `stack` comes to what the grammar says: the datum, once finished, is handed
to the innermost form with less than `length` characters left, or there is an error of that kind. -/
def Answers (reading : Reading Datum) (stack : List Unclosed) (finish : Datum → Datum)
    (length : Nat) : Parse Datum → Prop
  | ⟨.ok d, rest, symbols⟩ =>
    rest.length < length ∧ ∃ r : Reader, r.cursor.upcoming = rest ∧ r.Ready symbols ∧
      reading = resume (r.complete symbols stack (finish d))
  | ⟨.error kind, rest, symbols⟩ =>
    reading.parse = ⟨.error kind, rest, symbols⟩ ∧ reading.reader.Ready symbols

/-- On texts of length `n` reading inside of any forms follows the grammar. -/
structure Descends (n : Nat) : Prop where
  datum : ∀ (r : Reader) (symbols : SymbolTable) (stack : List Unclosed),
    r.cursor.upcoming.length = n → r.Ready symbols →
    (TakesDatum stack ∨ StartsDatum (Grammar.afterBlanks r.cursor.upcoming)) →
    ∃ p, Grammar.datum symbols r.cursor.upcoming = some p ∧
      Answers (r.readDatum symbols stack) stack id n p
  elements : ∀ (r : Reader) (symbols : SymbolTable) (stack : List Unclosed)
    (reversed : List Datum), r.cursor.upcoming.length = n → r.Ready symbols →
    ∃ p, Grammar.elements symbols r.cursor.upcoming (!reversed.isEmpty) = some p ∧
      Answers (r.readDatum symbols (.list reversed :: stack)) stack
        (fun d => Datum.consAll d reversed) n p
  tail : ∀ (r : Reader) (symbols : SymbolTable) (stack : List Unclosed) (reversed : List Datum),
    r.cursor.upcoming.length = n → r.Ready symbols →
    ∃ p, Grammar.tail symbols r.cursor.upcoming = some p ∧
      Answers (r.readDatum symbols (.dotted reversed :: stack)) stack
        (fun d => Datum.consAll d reversed) n p
  closing : ∀ (r : Reader) (symbols : SymbolTable) (stack : List Unclosed) (reversed : List Datum)
    (last : Datum), r.cursor.upcoming.length = n → r.Ready symbols →
    ∃ p, Grammar.closing symbols r.cursor.upcoming last = some p ∧
      Answers (r.readDatum symbols (.ended reversed last :: stack)) stack
        (fun d => Datum.consAll d reversed) n p

private theorem answers_error {reading : Reading Datum} {finish : Datum → Datum} {n : Nat}
    {e : ReadError}
    {r' : Reader} (h : reading = ⟨.error e, r', symbols⟩) (hrest : r'.cursor.upcoming = rest)
    (hready : r'.Ready symbols) : Answers reading stack finish n ⟨.error e.kind, rest, symbols⟩ := by
  rw [h, Answers, Reading.parse, hrest]
  exact ⟨rfl, hready⟩

variable {n : Nat} {finish : Datum → Datum}

theorem answers_end (hready : r.Ready symbols)
    (hend : Grammar.afterBlanks r.cursor.upcoming = []) (outer : List Unclosed) :
    Answers (r.readDatum symbols stack) outer finish n ⟨.error .unexpectedEnd, [], symbols⟩ := by
  have hskip : r.skipBlanks.cursor.upcoming = [] := by rw [upcoming_skipBlanks_eq, hend]
  exact answers_error (readDatum_end hskip) hskip ⟨hready.inOrder, hready.quotation⟩

theorem answers_close_error (hready : r.Ready symbols)
    (hclosing : Grammar.afterBlanks r.cursor.upcoming = ')' :: rest) {e : ReadError}
    (hclose : close r.skipBlanks.cursor.line stack = .error e) (outer : List Unclosed) :
    Answers (r.readDatum symbols stack) outer finish n ⟨.error e.kind, rest, symbols⟩ := by
  have hskip : r.skipBlanks.cursor.upcoming = ')' :: rest := by
    rw [upcoming_skipBlanks_eq, hclosing]
  exact answers_error (readDatum_close_error hskip hclose) (upcoming_moved hskip) hready.moved

/-- A closing parenthesis that completes a list. -/
theorem answers_close (hready : r.Ready symbols) (hlength : r.cursor.upcoming.length = n)
    (hclosing : Grammar.afterBlanks r.cursor.upcoming = ')' :: rest) {d : Datum}
    {outer : List Unclosed} (hclose : ∀ line, close line stack = .ok (finish d, outer)) :
    Answers (r.readDatum symbols stack) outer finish n ⟨.ok d, rest, symbols⟩ := by
  have hskip : r.skipBlanks.cursor.upcoming = ')' :: rest := by
    rw [upcoming_skipBlanks_eq, hclosing]
  have hle := Grammar.length_afterBlanks r.cursor.upcoming
  rw [hclosing, List.length_cons, hlength] at hle
  exact ⟨by omega, r.skipBlanks.moved, upcoming_moved hskip, hready.moved,
    readDatum_close hskip hclose⟩

theorem answers_point_error (hready : r.Ready symbols)
    (hpoint : Grammar.afterBlanks r.cursor.upcoming = ch :: rest)
    (hdot : Cursor.startsLoneDot (ch :: rest) = true) {e : ReadError}
    (herror : dot r.skipBlanks.cursor.line stack = .error e) (outer : List Unclosed) :
    Answers (r.readDatum symbols stack) outer finish n ⟨.error e.kind, rest, symbols⟩ := by
  have hskip : r.skipBlanks.cursor.upcoming = ch :: rest := by rw [upcoming_skipBlanks_eq, hpoint]
  refine answers_error ?_ (upcoming_moved hskip) hready.moved
  rw [readDatum_point hskip hdot, herror]

theorem Answers.mono {reading : Reading Datum} {p : Parse Datum} {m : Nat} (hmn : m ≤ n)
    (h : Answers reading stack finish m p) : Answers reading stack finish n p := by
  obtain ⟨outcome, rest, symbols⟩ := p
  cases outcome with
  | ok d => exact ⟨Nat.lt_of_lt_of_le h.1 hmn, h.2⟩
  | error kind => exact h

theorem answers_quotation {reading : Reading Datum} {d : Datum} (hshorter : rest.length < n)
    (hr : r.cursor.upcoming = rest) (hready : r.Ready symbols)
    (hreading : reading = resume (r.complete symbols (.quotation :: stack) d)) :
    Answers reading stack id n (Grammar.quotation d rest symbols) := by
  rcases hintern : symbols.intern "quote" with ⟨answer, symbols'⟩
  obtain ⟨r', hcursor, hready', hquote⟩ := hready.quoteSymbol hintern
  have hupcoming : r'.cursor.upcoming = rest := by rw [hcursor, hr]
  rw [complete, hquote] at hreading
  rw [Grammar.quotation, Grammar.symbol, hintern]
  cases answer with
  | ok x => exact ⟨hshorter, r', hupcoming, hready', hreading⟩
  | error e => exact answers_error (e := .symbolTable e) hreading hupcoming hready'

theorem answers_atom (hready : r.Ready symbols) (hlength : r.cursor.upcoming.length = n)
    (hhere : Grammar.afterBlanks r.cursor.upcoming = ch :: rest)
    (hopen : ch ≠ '(') (hquote : ch ≠ '\'') (hclose : ch ≠ ')')
    (hdot : Cursor.startsLoneDot (ch :: rest) = false) :
    Answers (r.readDatum symbols stack) stack id n (Grammar.atom symbols (ch :: rest)) := by
  have hskip : r.skipBlanks.cursor.upcoming = ch :: rest := by rw [upcoming_skipBlanks_eq, hhere]
  have hle := Grammar.length_afterBlanks r.cursor.upcoming
  have hch : ch = '"' ∨ isDelimiter ch = false := by
    have hhead := (Grammar.head_afterBlanks r.cursor.upcoming).1 ch (by simp [hhere])
    by_cases hstring : ch = '"'
    · exact .inl hstring
    · right
      simp [isDelimiter, hopen, hquote, hclose, hstring, hhead.1, hhead.2]
  have hparse := readAtom_parse hskip hch symbols
  have hgrows := grows_readAtom hready.inOrder r.skipBlanks.cursor
  have hshorter := remaining_readAtom (c := r.skipBlanks.cursor) symbols
    (by simp [Cursor.atEnd_eq, hskip])
  rw [← Cursor.length_upcoming, ← Cursor.length_upcoming, hskip] at hshorter
  rw [hhere, hlength] at hle
  rw [readDatum_token hskip hopen hquote hclose hdot, ← hparse]
  rcases hread : readAtom r.skipBlanks.cursor symbols with ⟨outcome, cursor, symbols'⟩
  rw [hread] at hgrows hshorter
  cases outcome with
  | ok d =>
    exact ⟨Nat.lt_of_lt_of_le hshorter hle, { r with cursor := cursor }, rfl,
      hready.grow hgrows rfl, rfl⟩
  | error e =>
    have hready' : { r with cursor := cursor : Reader }.Ready symbols' := hready.grow hgrows rfl
    exact answers_error rfl rfl hready'

private theorem TakesDatum.close_eq (h : TakesDatum stack) (line : Nat) :
    close line stack = .error (.unexpectedChar ')' line) := by
  match stack, h with
  | [], _ => rfl
  | .quotation :: _, _ => rfl

private theorem TakesDatum.dot_eq (h : TakesDatum stack) (line : Nat) :
    dot line stack = .error (.unexpectedChar '.' line) := by
  match stack, h with
  | [], _ => rfl
  | .quotation :: _, _ => rfl

private theorem datum_here (h : Grammar.afterBlanks cs = ch :: rest) (hopen : ch ≠ '(')
    (hquote : ch ≠ '\'') (hclose : ch ≠ ')') :
    Grammar.datum symbols cs =
      if Cursor.startsLoneDot (ch :: rest) then Grammar.wrong .unexpectedChar rest symbols
      else some (Grammar.atom symbols (ch :: rest)) := by
  rw [Grammar.datum, h]
  split <;> simp_all

private theorem descends_datum (ih : ∀ m < n, Descends m) (r : Reader) (symbols : SymbolTable)
    (stack : List Unclosed) (hlength : r.cursor.upcoming.length = n) (hready : r.Ready symbols)
    (hplace : TakesDatum stack ∨ StartsDatum (Grammar.afterBlanks r.cursor.upcoming)) :
    ∃ p, Grammar.datum symbols r.cursor.upcoming = some p ∧
      Answers (r.readDatum symbols stack) stack id n p := by
  have hle := Grammar.length_afterBlanks r.cursor.upcoming
  have hskip := upcoming_skipBlanks_eq r
  cases hhere : Grammar.afterBlanks r.cursor.upcoming with
  | nil => exact ⟨_, by rw [Grammar.datum, hhere]; rfl, answers_end hready hhere stack⟩
  | cons ch rest =>
    rw [hhere] at hskip hle hplace
    have hinside : r.skipBlanks.moved.cursor.upcoming = rest := upcoming_moved hskip
    have hshorter : rest.length < n := by
      rw [List.length_cons, hlength] at hle
      omega
    by_cases hopen : ch = '('
    · subst hopen
      obtain ⟨p, hp, hanswers⟩ := (ih rest.length hshorter).elements r.skipBlanks.moved symbols
        stack [] (by rw [hinside]) hready.moved
      rw [hinside] at hp
      refine ⟨p, by rw [Grammar.datum, hhere]; exact hp, ?_⟩
      rw [readDatum_open hskip]
      exact hanswers.mono (Nat.le_of_lt hshorter)
    by_cases hquote : ch = '\''
    · subst hquote
      obtain ⟨p, hp, hanswers⟩ := (ih rest.length hshorter).datum r.skipBlanks.moved symbols
        (.quotation :: stack) (by rw [hinside]) hready.moved (.inl trivial)
      rw [hinside] at hp
      rw [Grammar.datum, hhere, readDatum_quote hskip]
      obtain ⟨outcome, rest', symbols'⟩ := p
      cases outcome with
      | error kind => exact ⟨⟨.error kind, rest', symbols'⟩, by simp [hp, Grammar.wrong], hanswers⟩
      | ok d =>
        obtain ⟨hrest, r', hr', hready', hreading⟩ := hanswers
        refine ⟨Grammar.quotation d rest' symbols', by simp [hp], ?_⟩
        exact answers_quotation (Nat.lt_trans hrest hshorter) hr' hready' hreading
    by_cases hclose : ch = ')'
    · subst hclose
      have htakes : TakesDatum stack := by
        refine hplace.resolve_right ?_
        rintro ⟨_, _, heq, hne, -⟩
        exact hne (List.cons.inj heq).1.symm
      refine ⟨⟨.error .unexpectedChar, rest, symbols⟩, by rw [Grammar.datum, hhere]; rfl, ?_⟩
      exact answers_close_error hready hhere (htakes.close_eq _) stack
    rw [datum_here hhere hopen hquote hclose]
    cases hdot : Cursor.startsLoneDot (ch :: rest) with
    | true =>
      have htakes : TakesDatum stack := by
        refine hplace.resolve_right ?_
        rintro ⟨_, _, heq, -, hnot⟩
        rw [← heq, hdot] at hnot
        contradiction
      exact ⟨⟨.error .unexpectedChar, rest, symbols⟩, rfl,
        answers_point_error hready hhere hdot (htakes.dot_eq _) stack⟩
    | false => exact ⟨_, rfl, answers_atom hready hlength hhere hopen hquote hclose hdot⟩

private theorem startsDatum_of_ne (hhere : Grammar.afterBlanks cs = ch :: rest)
    (hclose : ∀ others, ch :: rest = ')' :: others → False)
    (hdot : Cursor.startsLoneDot (ch :: rest) = false) : StartsDatum (Grammar.afterBlanks cs) := by
  refine ⟨ch, rest, hhere, ?_, hdot⟩
  rintro rfl
  exact hclose rest rfl

private theorem descends_elements (ih : ∀ m < n, Descends m) (r : Reader) (symbols : SymbolTable)
    (stack : List Unclosed) (reversed : List Datum) (hlength : r.cursor.upcoming.length = n)
    (hready : r.Ready symbols) :
    ∃ p, Grammar.elements symbols r.cursor.upcoming (!reversed.isEmpty) = some p ∧
      Answers (r.readDatum symbols (.list reversed :: stack)) stack
        (fun d => Datum.consAll d reversed) n p := by
  have hle := Grammar.length_afterBlanks r.cursor.upcoming
  have hskip := upcoming_skipBlanks_eq r
  rw [Grammar.elements]
  cases hhere : Grammar.afterBlanks r.cursor.upcoming with
  | nil => exact ⟨_, rfl, answers_end hready hhere stack⟩
  | cons ch rest =>
    rw [hhere] at hskip hle
    have hinside : r.skipBlanks.moved.cursor.upcoming = rest := upcoming_moved hskip
    have hshorter : rest.length < n := by
      rw [List.length_cons, hlength] at hle
      omega
    split
    · contradiction
    · next heq =>
      obtain ⟨rfl, rfl⟩ := List.cons.inj heq
      exact ⟨_, rfl, answers_close hready hlength hhere (fun _ => rfl)⟩
    next hclose =>
    cases hdot : Cursor.startsLoneDot (ch :: rest) with
    | true =>
      cases reversed with
      | nil =>
        exact ⟨⟨.error .badDottedList, rest, symbols⟩, by simp [Grammar.wrong],
          answers_point_error (e := .badDottedList .misplaced _) hready hhere hdot rfl stack⟩
      | cons d reversed =>
        obtain ⟨p, hp, hanswers⟩ := (ih rest.length hshorter).tail r.skipBlanks.moved symbols
          stack (d :: reversed) (by rw [hinside]) hready.moved
        rw [hinside] at hp
        refine ⟨p, hp, ?_⟩
        rw [readDatum_point hskip hdot]
        exact hanswers.mono (Nat.le_of_lt hshorter)
    | false =>
      obtain ⟨p, hp, hanswers⟩ := descends_datum ih r symbols (.list reversed :: stack) hlength
        hready (.inr (startsDatum_of_ne hhere hclose hdot))
      obtain ⟨outcome, rest', symbols'⟩ := p
      cases outcome with
      | error kind => exact ⟨⟨.error kind, rest', symbols'⟩, by simp [hp, Grammar.wrong], hanswers⟩
      | ok d =>
        obtain ⟨hrest, r', hr', hready', hreading⟩ := hanswers
        obtain ⟨p, hp', hanswers'⟩ := (ih rest'.length hrest).elements r' symbols' stack
          (d :: reversed) (by rw [hr']) hready'
        have htaken : rest'.length < r.cursor.remaining := by
          rwa [← Cursor.length_upcoming, hlength]
        rw [hr'] at hp'
        obtain ⟨outcome, rest'', symbols''⟩ := p
        have hp' : Grammar.elements symbols' rest' true = some ⟨outcome, rest'', symbols''⟩ := hp'
        rw [hreading]
        cases outcome with
        | error kind =>
          exact ⟨⟨.error kind, rest'', symbols''⟩, by simp [hp, hp', htaken, Grammar.wrong],
            hanswers'⟩
        | ok others =>
          exact ⟨⟨.ok (.pair d others), rest'', symbols''⟩, by simp [hp, hp', htaken],
            hanswers'.mono (Nat.le_of_lt hrest)⟩

private theorem descends_tail (ih : ∀ m < n, Descends m) (r : Reader) (symbols : SymbolTable)
    (stack : List Unclosed) (reversed : List Datum) (hlength : r.cursor.upcoming.length = n)
    (hready : r.Ready symbols) :
    ∃ p, Grammar.tail symbols r.cursor.upcoming = some p ∧
      Answers (r.readDatum symbols (.dotted reversed :: stack)) stack
        (fun d => Datum.consAll d reversed) n p := by
  rw [Grammar.tail]
  cases hhere : Grammar.afterBlanks r.cursor.upcoming with
  | nil => exact ⟨_, rfl, answers_end hready hhere stack⟩
  | cons ch rest =>
    split
    · contradiction
    · next heq =>
      obtain ⟨rfl, rfl⟩ := List.cons.inj heq
      exact ⟨_, rfl, answers_close_error (e := .badDottedList .missingTail _) hready hhere rfl stack⟩
    next hclose =>
    cases hdot : Cursor.startsLoneDot (ch :: rest) with
    | true =>
      exact ⟨_, rfl, answers_point_error (e := .badDottedList .misplaced _) hready hhere hdot rfl
        stack⟩
    | false =>
      obtain ⟨p, hp, hanswers⟩ := descends_datum ih r symbols (.dotted reversed :: stack) hlength
        hready (.inr (startsDatum_of_ne hhere hclose hdot))
      obtain ⟨outcome, rest', symbols'⟩ := p
      cases outcome with
      | error kind => exact ⟨⟨.error kind, rest', symbols'⟩, by simp [hp, Grammar.wrong], hanswers⟩
      | ok d =>
        obtain ⟨hrest, r', hr', hready', hreading⟩ := hanswers
        obtain ⟨p, hp', hanswers'⟩ := (ih rest'.length hrest).closing r' symbols' stack reversed d
          (by rw [hr']) hready'
        have htaken : rest'.length < r.cursor.remaining := by
          rwa [← Cursor.length_upcoming, hlength]
        rw [hr'] at hp'
        rw [hreading]
        exact ⟨p, by simp [hp, hp', htaken], hanswers'.mono (Nat.le_of_lt hrest)⟩

private theorem descends_closing (ih : ∀ m < n, Descends m) (r : Reader) (symbols : SymbolTable)
    (stack : List Unclosed) (reversed : List Datum) (last : Datum)
    (hlength : r.cursor.upcoming.length = n) (hready : r.Ready symbols) :
    ∃ p, Grammar.closing symbols r.cursor.upcoming last = some p ∧
      Answers (r.readDatum symbols (.ended reversed last :: stack)) stack
        (fun d => Datum.consAll d reversed) n p := by
  rw [Grammar.closing]
  cases hhere : Grammar.afterBlanks r.cursor.upcoming with
  | nil => exact ⟨_, rfl, answers_end hready hhere stack⟩
  | cons ch rest =>
    split
    · contradiction
    · next heq =>
      obtain ⟨rfl, rfl⟩ := List.cons.inj heq
      exact ⟨_, rfl, answers_close hready hlength hhere (fun _ => rfl)⟩
    next hclose =>
    cases hdot : Cursor.startsLoneDot (ch :: rest) with
    | true =>
      exact ⟨_, rfl, answers_point_error (e := .badDottedList .misplaced _) hready hhere hdot rfl
        stack⟩
    | false =>
      obtain ⟨p, hp, hanswers⟩ := descends_datum ih r symbols (.ended reversed last :: stack)
        hlength hready (.inr (startsDatum_of_ne hhere hclose hdot))
      obtain ⟨outcome, rest', symbols'⟩ := p
      cases outcome with
      | error kind => exact ⟨⟨.error kind, rest', symbols'⟩, by simp [hp, Grammar.wrong], hanswers⟩
      | ok d =>
        -- The second datum is read to its end, and only then refused.
        obtain ⟨-, r', hr', hready', hreading⟩ := hanswers
        exact ⟨⟨.error .badDottedList, rest', symbols'⟩, by simp [hp, Grammar.wrong],
          answers_error (e := .badDottedList .secondTail _) hreading hr' hready'⟩

/-- Reading inside of any forms follows the grammar, whatever the length of the text. -/
theorem descends (n : Nat) : Descends n := by
  induction n using Nat.strongRecOn with
  | ind n ih =>
    exact ⟨descends_datum ih, descends_elements ih, descends_tail ih, descends_closing ih⟩

theorem Ready.read_parse (hready : r.Ready symbols) :
    Grammar.read symbols r.cursor.upcoming = some (r.read symbols).parse ∧
      (r.read symbols).reader.Ready (r.read symbols).symbols := by
  have hskip := upcoming_skipBlanks_eq r
  rw [Grammar.read, read, Cursor.atEnd_eq, hskip]
  cases hhere : Grammar.afterBlanks r.cursor.upcoming with
  | nil =>
    refine ⟨?_, ⟨hready.inOrder, hready.quotation⟩⟩
    simp [Reading.parse, hskip, hhere, Except.mapError]
  | cons ch rest =>
    obtain ⟨p, hp, hanswers⟩ := (descends _).datum r symbols [] rfl hready (.inl trivial)
    obtain ⟨outcome, rest', symbols'⟩ := p
    simp only [hp, Option.bind_eq_bind, Option.bind_some, List.isEmpty_cons, Bool.false_eq_true,
      if_false]
    cases outcome with
    | ok d =>
      obtain ⟨-, r', hr', hready', hreading⟩ := hanswers
      have hreading : r.readDatum symbols [] = ⟨.ok d, r', symbols'⟩ := hreading
      rw [hreading]
      exact ⟨by rw [← hr']; rfl, hready'⟩
    | error kind =>
      obtain ⟨hparse, hready'⟩ := hanswers
      rcases hreading : r.readDatum symbols [] with ⟨outcome, r', symbols''⟩
      rw [hreading] at hparse hready'
      cases outcome with
      | ok d => simp [Reading.parse, Except.mapError] at hparse
      | error e =>
        obtain ⟨hkind, hrest, rfl⟩ := Parse.mk.inj hparse
        refine ⟨?_, hready'⟩
        obtain rfl : e.kind = kind := by simpa [Except.mapError] using hkind
        rw [← hrest]
        rfl

/-- The reading after `n` others, whatever they came to. -/
def readAgain (r : Reader) (symbols : SymbolTable) : Nat → Reading (Option Datum)
  | 0 => r.read symbols
  | n + 1 =>
    match r.readAgain symbols n with
    | ⟨_, r, symbols⟩ => r.read symbols

end Reader

def Grammar.readAgain (symbols : SymbolTable) (cs : List Char) : Nat → Option (Parse (Option Datum))
  | 0 => Grammar.read symbols cs
  | n + 1 => do
    match ← Grammar.readAgain symbols cs n with
    | ⟨_, rest, symbols⟩ => Grammar.read symbols rest

namespace Reader

variable {r : Reader} {symbols : SymbolTable}

private theorem Ready.readAgain_parse (hready : r.Ready symbols) (n : Nat) :
    Grammar.readAgain symbols r.cursor.upcoming n = some (r.readAgain symbols n).parse ∧
      (r.readAgain symbols n).reader.Ready (r.readAgain symbols n).symbols := by
  induction n with
  | zero => exact hready.read_parse
  | succ n ih =>
    obtain ⟨hparse, hready'⟩ := ih
    rw [Grammar.readAgain, hparse, Option.bind_eq_bind, Option.bind_some]
    exact hready'.read_parse

private theorem standsIn_readAgain (source : String) (symbols : SymbolTable) (n : Nat) :
    ((ofString source).readAgain symbols n).reader.cursor.StandsIn source.toList := by
  induction n with
  | zero => exact keeps_read (fun _ => Cursor.StandsIn.next) (Cursor.standsIn_ofString source) _
  | succ n ih => exact keeps_read (fun _ => Cursor.StandsIn.next) ih _

theorem ready_ofString (source : String) (h : symbols.InOrder) : (ofString source).Ready symbols :=
  ⟨h, by simp [ofString]⟩

/-- On every text, and for every reading of it one after the other, the recursive grammar comes to
an answer, and the reader gives the same one: no datum left, the same datum, or an error of the same
kind. The tables then agree, and the reader's position is the number of bytes in front of the text
that the grammar has left. -/
theorem reader_follows_grammar {names : List String} (h : symbols.Represents names)
    (source : String) (n : Nat) :
    ∃ p before, Grammar.readAgain symbols source.toList n = some p ∧
      ((ofString source).readAgain symbols n).outcome.mapError ReadError.kind = p.outcome ∧
      ((ofString source).readAgain symbols n).symbols = p.symbols ∧
      source.toList = before ++ p.rest ∧
      ((ofString source).readAgain symbols n).reader.offset = Cursor.byteCount before := by
  obtain ⟨hparse, -⟩ := (ready_ofString source ⟨names, h⟩).readAgain_parse n
  obtain ⟨before, hsource, hoffset⟩ := (standsIn_readAgain source symbols n).offset_eq
  exact ⟨_, before, hparse, rfl, rfl, hsource, hoffset⟩

/-- Behind a misplaced parenthesis reading goes on, here up to the second datum after a tail. -/
theorem grammar_behind_error :
    (SymbolTable.withCapacity 3 none (fun _ => 0)).Represents [] ∧
      (((ofString ") (1 . 2 'x) 3").readAgain
        (SymbolTable.withCapacity 3 none (fun _ => 0)) 1).outcome.mapError ReadError.kind =
          .error .badDottedList) ∧
      ∃ p before, Grammar.readAgain (SymbolTable.withCapacity 3 none (fun _ => 0))
          ") (1 . 2 'x) 3".toList 1 = some p ∧ p.outcome = .error .badDottedList ∧
        ") (1 . 2 'x) 3".toList = before ++ p.rest ∧ Cursor.byteCount before = 11 := by
  have hempty := SymbolTable.represents_withCapacity 3 none (fun _ => 0)
  obtain ⟨p, before, hread, houtcome, -, hsource, hoffset⟩ :=
    reader_follows_grammar hempty ") (1 . 2 'x) 3" 1
  have hkind : ((ofString ") (1 . 2 'x) 3").readAgain
      (SymbolTable.withCapacity 3 none (fun _ => 0)) 1).outcome.mapError ReadError.kind =
        .error .badDottedList := by decide +kernel
  refine ⟨hempty, hkind, p, before, hread, houtcome ▸ hkind, hsource, ?_⟩
  rw [← hoffset]
  decide +kernel

end Reader
end MiniScheme
