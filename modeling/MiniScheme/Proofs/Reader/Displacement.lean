import MiniScheme.Proofs.Reader.Progress
/-! # Reading further on in a text

A reader makes nothing of where it stands: some bytes and lines further on it reads the same, with
the lines of its errors and its own position moved along. So a part of a text that ends with its line
decides what it holds: a datum or an error that is found there is found with any text behind it, and
where there is nothing but blanks and comments the text behind it is read as if it stood alone.
-/
namespace MiniScheme

open Text (Cursor)

namespace Text.Cursor

variable {c : Cursor} {bytes lines : Nat}

/-- The cursor as many bytes and lines further on. -/
def displace (c : Cursor) (bytes lines : Nat) : Cursor :=
  { c with position := c.position + bytes, line := c.line + lines }

@[simp] theorem upcoming_displace (c : Cursor) (bytes lines : Nat) :
    (c.displace bytes lines).upcoming = c.upcoming := rfl

@[simp] theorem peek_displace (c : Cursor) (bytes lines : Nat) :
    (c.displace bytes lines).peek = c.peek := rfl

theorem next_displace (c : Cursor) (bytes lines : Nat) :
    (c.displace bytes lines).next.2 = c.next.2.displace bytes lines := by
  have hline (line : Nat) (ch : Char) : lineAfter (line + lines) ch = lineAfter line ch + lines := by
    unfold lineAfter
    split
    · exact Nat.add_right_comm line lines 1
    · rfl
  obtain ⟨pushed, rest, position, line⟩ := c
  match pushed, rest with
  | ch :: _, _ => simp only [next, displace, hline]
  | [], ch :: _ => simp only [next, displace, hline, Nat.add_right_comm position bytes]
  | [], [] => rfl

theorem advance_displace (c : Cursor) (bytes lines n : Nat) :
    (c.displace bytes lines).advance n = (c.advance n).displace bytes lines := by
  induction n generalizing c with
  | zero => rfl
  | succ n ih => rw [advance, advance, next_displace, ih]

theorem skipBlanks_displace (c : Cursor) (bytes lines : Nat) :
    (c.displace bytes lines).skipBlanks = c.skipBlanks.displace bytes lines :=
  advance_displace c bytes lines _

theorem readToken_displace (c : Cursor) (bytes lines : Nat) :
    (c.displace bytes lines).readToken =
      (c.readToken.1, c.readToken.2.displace bytes lines) := by
  simp only [readToken, upcoming_displace, advance_displace]

end Text.Cursor

def ReadError.displace (lines : Nat) : ReadError → ReadError
  | unexpectedEnd inside line => unexpectedEnd inside (line + lines)
  | unexpectedChar ch line => unexpectedChar ch (line + lines)
  | invalidNumber token line => invalidNumber token (line + lines)
  | invalidEscape ch line => invalidEscape ch (line + lines)
  | badDottedList fault line => badDottedList fault (line + lines)
  | symbolTable cause => symbolTable cause

namespace Reader

def displace (r : Reader) (bytes lines : Nat) : Reader :=
  { r with cursor := r.cursor.displace bytes lines }

def AtomRead.displace (a : AtomRead) (bytes lines : Nat) : AtomRead :=
  ⟨a.outcome.mapError (ReadError.displace lines), a.cursor.displace bytes lines, a.symbols⟩

end Reader

def Reading.displace {α : Type} (reading : Reading α) (bytes lines : Nat) : Reading α :=
  ⟨reading.outcome.mapError (ReadError.displace lines), reading.reader.displace bytes lines,
    reading.symbols⟩

namespace Reader

variable {r : Reader} {symbols : SymbolTable} {bytes lines : Nat}

private theorem readAtom_displace (c : Cursor) (symbols : SymbolTable) (bytes lines : Nat) :
    readAtom (c.displace bytes lines) symbols = (readAtom c symbols).displace bytes lines := by
  have hline : (c.displace bytes lines).line = c.line + lines := rfl
  have hnumber : (c.displace bytes lines).nextIsNumber = c.nextIsNumber := rfl
  unfold readAtom
  rw [Cursor.peek_displace, hnumber]
  by_cases hstring : c.peek = '"'
  · rw [if_pos hstring, if_pos hstring]
    simp only [readString, Cursor.upcoming_displace, Cursor.advance_displace]
    cases scanString [] 0 (c.upcoming.drop 1) <;> rfl
  rw [if_neg hstring, if_neg hstring]
  by_cases hhash : c.peek = '#'
  · rw [if_pos hhash, if_pos hhash]
    simp only [readHash, Cursor.readToken_displace, hline]
    cases parseBool? c.readToken.1 <;> rfl
  rw [if_neg hhash, if_neg hhash]
  by_cases hnum : c.nextIsNumber = true
  · rw [if_pos hnum, if_pos hnum]
    simp only [readNumber, Cursor.readToken_displace, hline]
    cases parseNumber? c.readToken.1 <;> rfl
  rw [if_neg hnum, if_neg hnum]
  simp only [readSymbol, Cursor.readToken_displace, Cursor.peek_displace, Cursor.next_displace,
    hline]
  split
  · rfl
  split <;> rfl

private theorem quoteSymbol_displace (r : Reader) (symbols : SymbolTable) (bytes lines : Nat) :
    (r.displace bytes lines).quoteSymbol symbols =
      (r.quoteSymbol symbols).displace bytes lines := by
  unfold quoteSymbol
  have hquotation : (r.displace bytes lines).quotation = r.quotation := rfl
  rw [hquotation]
  split
  · rfl
  split <;> rfl

private theorem complete_displace (r : Reader) (symbols : SymbolTable) (stack : List Unclosed)
    (d : Datum) (bytes lines : Nat) :
    (r.displace bytes lines).complete symbols stack d =
      (r.complete symbols stack d).displace bytes lines := by
  induction stack generalizing r symbols d with
  | nil => rfl
  | cons form stack ih =>
    cases form with
    | quotation =>
      rw [complete, complete, quoteSymbol_displace]
      rcases r.quoteSymbol symbols with ⟨outcome, r', symbols'⟩
      cases outcome with
      | ok x => exact ih r' symbols' _
      | error e => rfl
    | list reversed => rfl
    | dotted reversed => rfl
    | ended reversed tail => rfl

private theorem close_displace (line lines : Nat) (stack : List Unclosed) :
    close (line + lines) stack = (close line stack).mapError (ReadError.displace lines) := by
  unfold close
  split <;> rfl

private theorem dot_displace (line lines : Nat) (stack : List Unclosed) :
    dot (line + lines) stack = (dot line stack).mapError (ReadError.displace lines) := by
  unfold dot
  split <;> rfl

private theorem step_displace (r : Reader) (symbols : SymbolTable) (stack : List Unclosed)
    (bytes lines : Nat) :
    (r.displace bytes lines).step symbols stack =
      (r.step symbols stack).displace bytes lines := by
  have hpeek : (r.displace bytes lines).cursor.peek = r.cursor.peek := rfl
  have hnext : (r.displace bytes lines).cursor.next.2 = r.cursor.next.2.displace bytes lines :=
    Cursor.next_displace r.cursor bytes lines
  have hline : (r.displace bytes lines).cursor.line = r.cursor.line + lines := rfl
  have hdot : (r.displace bytes lines).cursor.nextIsLoneDot = r.cursor.nextIsLoneDot := rfl
  have hatom : readAtom (r.displace bytes lines).cursor symbols =
      (readAtom r.cursor symbols).displace bytes lines :=
    readAtom_displace r.cursor symbols bytes lines
  simp only [step, hpeek, hnext, hline, hdot, hatom, close_displace, dot_displace]
  split
  · rfl
  split
  · rfl
  split
  · cases close r.cursor.line stack with
    | ok closed => exact complete_displace { r with cursor := r.cursor.next.2 } symbols _ _ _ _
    | error e => rfl
  split
  · cases dot r.cursor.line stack <;> rfl
  rcases readAtom r.cursor symbols with ⟨outcome, cursor, symbols'⟩
  cases outcome with
  | ok d => exact complete_displace { r with cursor := cursor } symbols' stack d _ _
  | error e => rfl

theorem skipBlanks_displace (r : Reader) (bytes lines : Nat) :
    (r.displace bytes lines).skipBlanks = r.skipBlanks.displace bytes lines := by
  rw [skipBlanks, displace, Cursor.skipBlanks_displace]
  rfl

private theorem readDatum_displace (r : Reader) (symbols : SymbolTable) (stack : List Unclosed)
    (bytes lines : Nat) :
    (r.displace bytes lines).readDatum symbols stack =
      (r.readDatum symbols stack).displace bytes lines := by
  have hupcoming (r : Reader) : (r.displace bytes lines).skipBlanks.cursor.upcoming =
      r.skipBlanks.cursor.upcoming := by
    rw [skipBlanks_displace]
    rfl
  have hstep {r : Reader} {symbols : SymbolTable} {stack : List Unclosed}
      (hend : ¬ r.skipBlanks.cursor.atEnd = true) :
      (r.displace bytes lines).readDatum symbols stack =
        resume ((r.skipBlanks.step symbols stack).displace bytes lines) := by
    obtain ⟨ch, cs, hcs⟩ :=
      List.exists_cons_of_ne_nil (mt Cursor.atEnd_iff.mpr hend)
    rw [readDatum_eq_resume ((hupcoming r).trans hcs), skipBlanks_displace, step_displace]
  fun_induction readDatum r symbols stack with
  | case1 r symbols stack hend =>
    have hnil := Cursor.atEnd_iff.mp hend
    rw [readDatum_end ((hupcoming r).trans hnil), skipBlanks_displace]
    rfl
  | case2 r symbols stack hend d after symbols' heq =>
    rw [hstep hend, heq]
    rfl
  | case3 r symbols stack hend stack' after symbols' heq ih =>
    rw [hstep hend, heq]
    exact ih
  | case4 r symbols stack hend e after symbols' heq =>
    rw [hstep hend, heq]
    rfl

/-- Further on in a text a datum is read the same. -/
theorem read_displace (r : Reader) (symbols : SymbolTable) (bytes lines : Nat) :
    (r.displace bytes lines).read symbols = (r.read symbols).displace bytes lines := by
  by_cases hend : r.skipBlanks.cursor.upcoming = []
  · rw [read_at_end hend, read_at_end (by rw [skipBlanks_displace]; exact hend),
      skipBlanks_displace]
    rfl
  · rw [read_eq_found hend, read_eq_found (by rw [skipBlanks_displace]; exact hend),
      readDatum_displace]
    rcases r.readDatum symbols [] with ⟨outcome, r', symbols'⟩
    cases outcome <;> rfl

end Reader

namespace Text.Cursor

open Grammar (afterBlanks)

theorem extend_ofString (source more : String) :
    (ofString source).extend more.toList = ofString (source ++ more) := by
  rw [extend, ofString, ofString, String.toList_append]

private theorem advance_add (c : Cursor) (m n : Nat) :
    c.advance (m + n) = (c.advance m).advance n := by
  induction m generalizing c with
  | zero => rw [Nat.zero_add, advance]
  | succ m ih => rw [Nat.add_right_comm, advance, ih, advance]

theorem advance_all (cs : List Char) (position line : Nat) :
    (Cursor.mk [] cs position line).advance cs.length =
      ⟨[], [], position + byteCount cs, line + cs.count '\n'⟩ := by
  induction cs generalizing position line with
  | nil => rfl
  | cons ch cs ih =>
    have hlines : lineAfter line ch + cs.count '\n' = line + (ch :: cs).count '\n' := by
      rw [List.count_cons, lineAfter]
      by_cases hch : ch = '\n'
      · simp only [hch, if_true, beq_self_eq_true]
        omega
      · simp [hch]
    rw [List.length_cons, advance, next]
    dsimp only
    rw [ih, byteCount_cons, hlines, Nat.add_assoc]

private theorem blankLength_le (inComment : Bool) (count : Nat) (cs : List Char) :
    blankLength inComment count cs ≤ count + cs.length := by
  induction cs generalizing inComment count with
  | nil => exact Nat.le_refl _
  | cons ch cs ih =>
    have hnext (b : Bool) : blankLength b (count + 1) cs ≤ count + (cs.length + 1) := by
      have hle := ih b (count + 1)
      omega
    simp only [blankLength, List.length_cons]
    split
    · exact hnext _
    split
    · exact hnext _
    split
    · exact hnext _
    · exact Nat.le_add_right _ _

private theorem blankLength_add_afterBlanks (cs : List Char) :
    blankLength false 0 cs + (afterBlanks cs).length = cs.length := by
  have hle := blankLength_le false 0 cs
  rw [← (Grammar.drop_blankLength cs).1, List.length_drop]
  omega

/-- Behind a text of blanks and comments with its last line ended, the cursor stands as at the start
of what follows, that many bytes and lines further on. -/
theorem skipBlanks_behind {source : String} (hlined : Lined source.toList)
    (hblank : afterBlanks source.toList = []) (more : String) :
    (ofString (source ++ more)).skipBlanks =
      ((ofString more).displace source.utf8ByteSize (source.toList.count '\n')).skipBlanks := by
  have hbehind : ((ofString source).extend more.toList).advance source.toList.length =
      (ofString more).displace source.utf8ByteSize (source.toList.count '\n') := by
    have hwhole : source.toList.length ≤ (ofString source).upcoming.length := Nat.le_refl _
    rw [advance_extend hwhole, ofString, advance_all, Nat.zero_add,
      byteCount_eq_utf8ByteSize, String.ofList_toList]
    simp [extend, displace, ofString]
  have hlength : blankLength false 0 (source.toList ++ more.toList) =
      source.toList.length + blankLength false 0 more.toList := by
    have hwhole := blankLength_add_afterBlanks (source.toList ++ more.toList)
    have hmore := blankLength_add_afterBlanks more.toList
    rw [(Grammar.afterBlanks_append (.inl hlined)).1 hblank, List.length_append] at hwhole
    omega
  have hupcoming : ((ofString source).extend more.toList).upcoming =
      source.toList ++ more.toList := upcoming_extend _ _
  rw [← extend_ofString, skipBlanks, hupcoming, hlength, advance_add, hbehind]
  rfl

end Text.Cursor

namespace Reader

private theorem read_congr {r r' : Reader} (h : r.skipBlanks = r'.skipBlanks)
    (symbols : SymbolTable) :
    r.read symbols = r'.read symbols := by
  by_cases hend : r.skipBlanks.cursor.upcoming = []
  · rw [read_at_end hend, read_at_end (by rwa [← h]), h]
  · obtain ⟨ch, cs, hcs⟩ := List.exists_cons_of_ne_nil hend
    rw [read_eq_found hend, read_eq_found (by rwa [← h]), readDatum_eq_resume hcs,
      readDatum_eq_resume (by rw [← h, hcs]), h]

theorem extend_ofString (source more : String) :
    (ofString source).extend more.toList = ofString (source ++ more) := by
  rw [extend, ofString, ofString, Cursor.extend_ofString]

def readFirst (source : String) (symbols : SymbolTable) : Reading (Option Datum) :=
  (ofString source).read symbols

private theorem readFirst_behind {source : String} {symbols : SymbolTable}
    (hlined : Text.Lined source.toList)
    (hend : (readFirst source symbols).outcome = .ok none) (more : String) :
    readFirst (source ++ more) symbols =
      (readFirst more symbols).displace source.utf8ByteSize (source.toList.count '\n') := by
  have hblank : Grammar.afterBlanks source.toList = [] := by
    have hskip := at_end_of_read hend
    rwa [upcoming_skipBlanks_eq] at hskip
  rw [readFirst, readFirst, ← read_displace]
  apply read_congr
  exact congrArg (Reader.mk · none) (Cursor.skipBlanks_behind hlined hblank more)

private theorem readFirst_extend {source : String} {symbols : SymbolTable}
    (hlined : Text.Lined source.toList) (hsome : (readFirst source symbols).outcome ≠ .ok none)
    (hcomplete : ¬ Incomplete (readFirst source symbols).outcome) (more : String) :
    readFirst (source ++ more) symbols = (readFirst source symbols).extend more.toList := by
  have hupcoming : Text.Lined (ofString source).cursor.upcoming := hlined
  rw [readFirst, ← extend_ofString]
  exact read_extend hupcoming hsome hcomplete more.toList

private theorem offset_displace {source : String} (symbols : SymbolTable) (bytes lines : Nat) :
    ((readFirst source symbols).displace bytes lines).reader.offset =
      (readFirst source symbols).reader.offset + bytes := by
  have hstands : (readFirst source symbols).reader.cursor.StandsIn source.toList :=
    keeps_read (fun _ => Cursor.StandsIn.next) (Cursor.standsIn_ofString source) symbols
  simp only [Reading.displace, displace, offset, Cursor.offset, Cursor.displace, hstands.pushed]
  rfl

/-- What a line decides, the text behind it does not change. If the first reading of a text that ends
with its line comes to a datum, or to an error other than an unexpected end, it comes to the same with
any text behind, and stops at the same place with the same symbols. If it reports the end, the text
behind is read as it is alone, that many bytes and lines further on. -/
theorem reading_is_prefix_stable (s t : String) (symbols : SymbolTable) :
    (¬ Incomplete (readFirst (s ++ "\n") symbols).outcome →
      (readFirst (s ++ "\n") symbols).outcome ≠ .ok none →
      (readFirst (s ++ "\n" ++ t) symbols).outcome = (readFirst (s ++ "\n") symbols).outcome ∧
      (readFirst (s ++ "\n" ++ t) symbols).reader.offset =
        (readFirst (s ++ "\n") symbols).reader.offset ∧
      (readFirst (s ++ "\n" ++ t) symbols).symbols = (readFirst (s ++ "\n") symbols).symbols) ∧
    ((readFirst (s ++ "\n") symbols).outcome = .ok none →
      (readFirst (s ++ "\n" ++ t) symbols).outcome =
        (readFirst t symbols).outcome.mapError
          (ReadError.displace ((s ++ "\n").toList.count '\n')) ∧
      (readFirst (s ++ "\n" ++ t) symbols).reader.offset =
        (readFirst t symbols).reader.offset + (s.utf8ByteSize + 1) ∧
      (readFirst (s ++ "\n" ++ t) symbols).reader.cursor.line =
        (readFirst t symbols).reader.cursor.line + (s ++ "\n").toList.count '\n' ∧
      (readFirst (s ++ "\n" ++ t) symbols).symbols = (readFirst t symbols).symbols) := by
  have hlined : Text.Lined (s ++ "\n").toList := by
    rw [String.toList_append]
    exact Text.lined_concat _
  refine ⟨fun hcomplete hsome => ?_, fun hend => ?_⟩
  · rw [readFirst_extend hlined hsome hcomplete]
    exact ⟨rfl, rfl, rfl⟩
  · have hsize : (s ++ "\n").utf8ByteSize = s.utf8ByteSize + 1 := String.utf8ByteSize_append
    rw [readFirst_behind hlined hend, offset_displace, hsize]
    exact ⟨rfl, rfl, rfl, rfl⟩

/-- In front of a list that does not end, a list is read that a comment ends; a parenthesis that is
out of place on the first line of a text is so on the third line behind two. -/
theorem lines_are_read_apart :
    (readFirst ("(\"é\") ; a" ++ "\n" ++ "(") (.withCapacity 1 none fun _ => 0)).outcome =
        .ok (some (.pair (.str "é") .nil)) ∧
      (readFirst ("; (\n" ++ "\n" ++ ")") (.withCapacity 1 none fun _ => 0)).outcome =
        .error (.unexpectedChar ')' 3) := by
  have hlist : (readFirst ("(\"é\") ; a" ++ "\n") (.withCapacity 1 none fun _ => 0)).outcome =
      .ok (some (.pair (.str "é") .nil)) := by decide +kernel
  have hblank : (readFirst ("; (\n" ++ "\n") (.withCapacity 1 none fun _ => 0)).outcome =
      .ok none := by decide +kernel
  have hstray : (readFirst ")" (.withCapacity 1 none fun _ => 0)).outcome =
      .error (.unexpectedChar ')' 1) := by decide +kernel
  obtain ⟨hdatum, -, -⟩ := (reading_is_prefix_stable "(\"é\") ; a" "("
    (.withCapacity 1 none fun _ => 0)).1 (by rw [hlist]; exact id) (by rw [hlist]; simp)
  obtain ⟨herror, -⟩ := (reading_is_prefix_stable "; (\n" ")"
    (.withCapacity 1 none fun _ => 0)).2 hblank
  refine ⟨hdatum.trans hlist, herror.trans ?_⟩
  rw [hstray]
  rfl

end Reader
end MiniScheme
