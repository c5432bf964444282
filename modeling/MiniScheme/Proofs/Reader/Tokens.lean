import MiniScheme.Proofs.Reader.Grammar
/-! # Tokens by the grammar

Skipping blanks, scanning a string and cutting off a token come to what the grammar says of the
characters still to come.
-/
namespace MiniScheme

open Text (Cursor isBlank isDelimiter)

namespace Grammar

private theorem blankLength_count (inComment : Bool) (count : Nat) (cs : List Char) :
    Cursor.blankLength inComment count cs = count + Cursor.blankLength inComment 0 cs := by
  induction cs generalizing inComment count with
  | nil => simp [Cursor.blankLength]
  | cons ch cs ih =>
    have hnext (b : Bool) : Cursor.blankLength b (count + 1) cs =
        count + Cursor.blankLength b 1 cs := by
      rw [ih b (count + 1), ih b 1, Nat.add_assoc]
    simp only [Cursor.blankLength, Nat.zero_add]
    split
    · exact hnext _
    split
    · exact hnext _
    split
    · exact hnext _
    · rfl

theorem drop_blankLength (cs : List Char) :
    cs.drop (Cursor.blankLength false 0 cs) = afterBlanks cs ∧
      cs.drop (Cursor.blankLength true 0 cs) = afterComment cs := by
  induction cs with
  | nil => simp [afterBlanks, afterComment]
  | cons ch cs ih =>
    have hstep (b : Bool) : (ch :: cs).drop (Cursor.blankLength b 1 cs) =
        cs.drop (Cursor.blankLength b 0 cs) := by
      rw [blankLength_count b 1, Nat.add_comm, List.drop_succ_cons]
    refine ⟨?_, ?_⟩
    · simp only [Cursor.blankLength, afterBlanks, Nat.zero_add]
      split
      · contradiction
      split
      · rw [hstep, ih.1]
      split
      · rw [hstep, ih.2]
      · rfl
    · simp only [Cursor.blankLength, afterComment, Nat.zero_add, if_true, hstep]
      by_cases hline : ch = '\n'
      · rw [if_pos hline, bne_eq_false_iff_eq.mpr hline, ih.1]
      · rw [if_neg hline, bne_iff_ne.mpr hline, ih.2]

theorem head_afterBlanks (cs : List Char) :
    (∀ ch ∈ (afterBlanks cs).head?, isBlank ch = false ∧ ch ≠ ';') ∧
      ∀ ch ∈ (afterComment cs).head?, isBlank ch = false ∧ ch ≠ ';' := by
  induction cs with
  | nil => simp [afterBlanks, afterComment]
  | cons c cs ih =>
    refine ⟨?_, ?_⟩
    · rw [afterBlanks]
      split
      · exact ih.1
      split
      · exact ih.2
      next hblank hcomment =>
        intro ch hch
        obtain rfl : c = ch := by simpa using hch
        exact ⟨by simpa using hblank, hcomment⟩
    · rw [afterComment]
      split
      · exact ih.1
      · exact ih.2

end Grammar

namespace Reader

open Grammar (Parse)

def StringScan.outcome : StringScan → Except ReadError.Kind (List Char)
  | closed text _ => .ok text
  | cut _ _ => .error .unexpectedEnd
  | badEscape _ _ => .error .invalidEscape

/-- A scan of `cs`, begun with `reversed` and `count`, comes to what the grammar reads there. -/
structure ScanFollows (scan : StringScan) (reversed : List Char) (count : Nat) (cs : List Char)
    (p : Parse (List Char)) : Prop where
  count_le : count ≤ scan.count
  outcome : scan.outcome = p.outcome.map (reversed.reverse ++ ·)
  rest : p.rest = cs.drop (scan.count - count)

private theorem ScanFollows.before {scan : StringScan} {reversed cs full : List Char}
    {count k : Nat}
    {ch : Char} {p : Parse (List Char)} (h : ScanFollows scan (ch :: reversed) (count + k) cs p)
    (hfull : full.drop k = cs) : ScanFollows scan reversed count full (p.before ch) := by
  have hcount := h.count_le
  refine ⟨by omega, ?_, ?_⟩
  · rw [h.outcome, Parse.before]
    cases p.outcome <;> simp [Except.map]
  · have hsplit : scan.count - count = k + (scan.count - (count + k)) := by omega
    rw [Parse.before, h.rest, hsplit, ← List.drop_drop, hfull]

private theorem scanString_follows (symbols : SymbolTable) (reversed : List Char) (count : Nat)
    (cs : List Char) :
    ScanFollows (scanString reversed count cs) reversed count cs (Grammar.string symbols cs) := by
  fun_induction scanString reversed count cs with
  | case1 reversed count =>
    refine ⟨?_, ?_, ?_⟩ <;> simp [Grammar.string, StringScan.count, StringScan.outcome, Except.map]
  | case2 reversed count rest =>
    refine ⟨?_, ?_, ?_⟩ <;> simp [Grammar.string, StringScan.count, StringScan.outcome, Except.map]
  | case3 reversed count =>
    refine ⟨?_, ?_, ?_⟩ <;> simp [Grammar.string, StringScan.count, StringScan.outcome, Except.map]
  | case4 reversed count letter cs ch hletter ih =>
    rw [Grammar.string, hletter]
    exact ih.before rfl
  | case5 reversed count letter cs hletter =>
    refine ⟨?_, ?_, ?_⟩ <;>
      simp [Grammar.string, StringScan.count, StringScan.outcome, hletter, Except.map]
  | case6 reversed count ch cs hquote hslash hescape ih =>
    rw [Grammar.string]
    · exact ih.before rfl
    · exact hquote
    · exact hslash
    · exact hescape

private theorem symbols_string (symbols : SymbolTable) (cs : List Char) :
    (Grammar.string symbols cs).symbols = symbols := by
  fun_induction Grammar.string symbols cs with
  | case4 letter cs ch hletter ih => exact ih
  | case6 ch cs _ _ _ ih => exact ih
  | _ => rfl

def AtomRead.parse (a : AtomRead) : Parse Datum :=
  ⟨a.outcome.mapError ReadError.kind, a.cursor.upcoming, a.symbols⟩

variable {c : Cursor} {symbols : SymbolTable}

/-- The token at a cursor is all that stands before the first delimiter. -/
theorem readToken_split (c : Cursor) :
    c.readToken.1 = c.upcoming.takeWhile (fun ch => !isDelimiter ch) ∧
      c.readToken.2.upcoming = c.upcoming.dropWhile (fun ch => !isDelimiter ch) := by
  refine ⟨rfl, ?_⟩
  have hsplit := @List.takeWhile_append_dropWhile _ (fun ch => !isDelimiter ch) c.upcoming
  rw [Cursor.readToken, Cursor.upcoming_advance, Cursor.tokenChars]
  nth_rewrite 2 [← hsplit]
  exact List.drop_left' rfl

private theorem ends_dropWhile (cs : List Char) :
    Text.Ends (cs.dropWhile (fun ch => !isDelimiter ch)) := by
  intro ch hch
  have hhead := List.head?_dropWhile_not (fun ch => !isDelimiter ch) cs
  rw [Option.mem_def.mp hch] at hhead
  simpa using hhead

private theorem readString_parse {cs : List Char} (h : c.upcoming = '"' :: cs) :
    (readString c symbols).parse = Grammar.atom symbols ('"' :: cs) := by
  have hscan := scanString_follows symbols [] 0 cs
  have hrest : (c.advance ((scanString [] 0 cs).count + 1)).upcoming =
      (Grammar.string symbols cs).rest := by
    rw [hscan.rest, Cursor.upcoming_advance, h, List.drop_succ_cons, Nat.sub_zero]
  have houtcome : (Grammar.string symbols cs).outcome = (scanString [] 0 cs).outcome := by
    rw [hscan.outcome]
    cases (Grammar.string symbols cs).outcome <;> rfl
  change _ = Parse.mk
    ((Grammar.string symbols cs).outcome.map (fun text => Datum.str (String.ofList text)))
    (Grammar.string symbols cs).rest (Grammar.string symbols cs).symbols
  rw [houtcome, symbols_string, ← hrest]
  simp only [AtomRead.parse, readString, h, List.drop_succ_cons, List.drop_zero]
  cases scanString [] 0 cs <;> rfl

private theorem readSymbol_parse (hne : c.readToken.1 ≠ []) :
    (readSymbol c symbols).parse =
      match Grammar.symbol symbols (String.ofList c.readToken.1) c.readToken.2.upcoming with
      | ⟨outcome, rest, symbols⟩ => ⟨outcome.map .symbol, rest, symbols⟩ := by
  have hempty : ¬ c.readToken.1.isEmpty = true := by simpa using hne
  simp only [readSymbol, Grammar.symbol, if_neg hempty]
  rcases symbols.intern (String.ofList c.readToken.1) with ⟨answer, symbols'⟩
  cases answer <;> rfl

theorem readAtom_parse {ch : Char} {cs : List Char} (h : c.upcoming = ch :: cs)
    (hch : ch = '"' ∨ isDelimiter ch = false) (symbols : SymbolTable) :
    (readAtom c symbols).parse = Grammar.atom symbols (ch :: cs) := by
  have hpeek : c.peek = ch := Cursor.peek_of_upcoming h
  rw [readAtom, hpeek]
  by_cases hquote : ch = '"'
  · rw [if_pos hquote, hquote]
    apply readString_parse
    rw [h, hquote]
  have hdelim : isDelimiter ch = false := hch.resolve_left hquote
  obtain ⟨htoken, hrest⟩ := readToken_split c
  obtain ⟨token, hcons⟩ : ∃ token, c.readToken.1 = ch :: token := by
    rw [htoken, h, List.takeWhile_cons_of_pos (by simp [hdelim])]
    exact ⟨_, rfl⟩
  have hnumber : c.nextIsNumber = Cursor.startsNumber c.readToken.1 := by
    have hsplit : c.upcoming = c.readToken.1 ++ c.readToken.2.upcoming := by
      rw [htoken, hrest, List.takeWhile_append_dropWhile]
    rw [Cursor.nextIsNumber, hsplit]
    apply Cursor.startsNumber_append
    · simp [hcons]
    · rw [hrest]
      exact ends_dropWhile c.upcoming
  have hatom : Grammar.atom symbols (ch :: cs) = Grammar.token symbols (ch :: cs) := by
    unfold Grammar.atom
    split
    · next heq => exact absurd (List.cons.inj heq).1 hquote
    · rfl
  rw [if_neg hquote, hatom, Grammar.token, ← h, ← htoken, ← hrest, Grammar.constant, hnumber]
  by_cases hhash : ch = '#'
  · have hhead : c.readToken.1.head? = some '#' := by rw [hcons, hhash, List.head?_cons]
    rw [if_pos hhash, if_pos hhead]
    simp only [AtomRead.parse, readHash]
    cases parseBool? c.readToken.1 <;> rfl
  have hhead : ¬ c.readToken.1.head? = some '#' := by simp [hcons, hhash]
  rw [if_neg hhash, if_neg hhead]
  by_cases hnum : Cursor.startsNumber c.readToken.1 = true
  · rw [if_pos hnum, if_pos hnum]
    simp only [AtomRead.parse, readNumber]
    cases parseNumber? c.readToken.1 <;> rfl
  · rw [if_neg hnum, if_neg hnum]
    exact readSymbol_parse (by simp [hcons])

end Reader
end MiniScheme
