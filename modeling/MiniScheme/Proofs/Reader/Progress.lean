import Mathlib.Data.Nat.Find
import MiniScheme.Proofs.Reader.Again
/-! # Reading makes progress

Whatever a reading comes to, short of the end of the text, it has taken a character. Nothing is put
back, so the position counts the bytes in front of what is left: it grows with every such reading and
stays between two characters. A text is used up after at most as many readings as it has characters.
-/
namespace MiniScheme

open Text (Cursor isBlank isDelimiter)

namespace Text.Cursor

variable {source : String} {c c' : Cursor}

private theorem byteCount_append (cs cs' : List Char) :
    byteCount (cs ++ cs') = byteCount cs + byteCount cs' := by
  induction cs' using List.reverseRecOn with
  | nil => rw [List.append_nil]; rfl
  | append_singleton cs' ch ih =>
    rw [← List.append_assoc, byteCount_concat, byteCount_concat, ih, Nat.add_assoc]

theorem byteCount_cons (ch : Char) (cs : List Char) :
    byteCount (ch :: cs) = ch.utf8Size + byteCount cs := by
  rw [← List.singleton_append, byteCount_append]
  exact congrArg (· + byteCount cs) (Nat.zero_add _)

theorem byteCount_eq_utf8ByteSize (cs : List Char) :
    byteCount cs = (String.ofList cs).utf8ByteSize := by
  induction cs using List.reverseRecOn with
  | nil => rfl
  | append_singleton cs ch ih =>
    rw [byteCount_concat, ih, String.ofList_append, String.utf8ByteSize_append,
      ← String.singleton_eq_ofList, String.utf8ByteSize_singleton]

theorem StandsIn.isValid (h : c.StandsIn source.toList) :
    (⟨c.offset⟩ : String.Pos.Raw).IsValid source := by
  obtain ⟨before, hsource, hoffset⟩ := h.offset_eq
  rw [String.Pos.Raw.isValid_iff_exists_append]
  refine ⟨String.ofList before, String.ofList c.upcoming, ?_, ?_⟩
  · rw [← String.ofList_append, ← hsource, String.ofList_toList]
  · rw [hoffset, byteCount_eq_utf8ByteSize]
    rfl

theorem StandsIn.offset_lt {text : List Char} (h : c.StandsIn text) (h' : c'.StandsIn text)
    (hless : c'.remaining < c.remaining) : c.offset < c'.offset := by
  obtain ⟨before, htext, hoffset⟩ := h.offset_eq
  obtain ⟨before', htext', hoffset'⟩ := h'.offset_eq
  have hlength := congrArg List.length (htext.symm.trans htext')
  rw [List.length_append, List.length_append, length_upcoming, length_upcoming] at hlength
  obtain ⟨between, rfl⟩ : before <+: before' :=
    List.prefix_of_prefix_length_le ⟨_, htext.symm⟩ ⟨_, htext'.symm⟩ (by omega)
  rw [List.length_append] at hlength
  obtain ⟨ch, taken, rfl⟩ := List.exists_cons_of_ne_nil
    (List.ne_nil_of_length_pos (l := between) (by omega))
  have hsize := ch.utf8Size_pos
  rw [hoffset, hoffset', byteCount_append, byteCount_cons]
  omega

end Text.Cursor

namespace Reader

variable {r : Reader} {symbols : SymbolTable} {tables : Nat → SymbolTable} {n : Nat}

/-- Behind blanks and comments no symbol is cut off as an empty token. -/
theorem token_ne_nil (hend : r.skipBlanks.cursor.atEnd = false)
    (h : r.skipBlanks.cursor.AtSymbol) : r.skipBlanks.cursor.readToken.1 ≠ [] := by
  obtain ⟨cs, hcs⟩ := upcoming_eq_cons hend
  have hhead := (Grammar.head_afterBlanks r.cursor.upcoming).1 r.skipBlanks.cursor.peek
  rw [← upcoming_skipBlanks_eq, hcs, List.head?_cons] at hhead
  obtain ⟨hblank, hcomment⟩ := hhead rfl
  have hdelim : isDelimiter r.skipBlanks.cursor.peek = false := by
    simp [isDelimiter, hblank, hcomment, h.notOpen, h.notClose, h.notString, h.notQuote]
  rw [(readToken_split _).1, hcs, List.takeWhile_cons_of_pos (by simp [hdelim])]
  exact List.cons_ne_nil _ _

/-- The characters that reading reports as unexpected. A symbol that was cut off as an empty token
would add the delimiter that it stands at. -/
def IsRefused (ch : Char) : Prop := ch = ')' ∨ ch = '.' ∨ ch = '#'

private theorem step_unexpectedChar {stack : List Unclosed} {ch : Char} {line : Nat}
    (hend : r.skipBlanks.cursor.atEnd = false)
    (h : (r.skipBlanks.step symbols stack).outcome = .error (.unexpectedChar ch line)) :
    IsRefused ch := by
  cases step_fault h with
  | close line => exact .inl rfl
  | point line => exact .inr (.inl rfl)
  | hash line => exact .inr (.inr rfl)
  | empty here none line => exact absurd none (token_ne_nil hend here)

private theorem readDatum_unexpectedChar {stack : List Unclosed} {ch : Char} {line : Nat}
    (h : (r.readDatum symbols stack).outcome = .error (.unexpectedChar ch line)) :
    IsRefused ch := by
  fun_induction readDatum r symbols stack with
  | case1 r symbols stack hend => simp at h
  | case2 r symbols stack hend d after symbols' hstep => simp at h
  | case3 r symbols stack hend stack' after symbols' hstep ih => exact ih h
  | case4 r symbols stack hend e after symbols' hstep =>
    obtain rfl := Except.error.inj h
    exact step_unexpectedChar (by simpa using hend) (congrArg Reading.outcome hstep)

theorem read_unexpectedChar {ch : Char} {line : Nat}
    (h : (r.read symbols).outcome = .error (.unexpectedChar ch line)) : IsRefused ch := by
  have hne : r.skipBlanks.cursor.upcoming ≠ [] := ne_nil_of_read (by rw [h]; simp)
  rw [read_eq_found hne, found] at h
  cases houtcome : (r.readDatum symbols []).outcome with
  | ok d => simp [houtcome, Except.map] at h
  | error e =>
    rw [houtcome] at h
    obtain rfl := Except.error.inj h
    exact readDatum_unexpectedChar houtcome

theorem remaining_read_lt (h : (r.read symbols).outcome ≠ .ok none) :
    (r.read symbols).reader.cursor.remaining < r.cursor.remaining := by
  have hne := ne_nil_of_read h
  rw [read_eq_found hne]
  exact remaining_readDatum_lt r symbols [] (mt Cursor.atEnd_iff.mp hne)

/-- The reader after `n` readings, whatever they came to. The symbol table may be another one each
time. -/
def reached (r : Reader) (tables : Nat → SymbolTable) : Nat → Reader
  | 0 => r
  | n + 1 => ((r.reached tables n).read (tables n)).reader

def outcomeAt (r : Reader) (tables : Nat → SymbolTable) (n : Nat) :
    Except ReadError (Option Datum) :=
  ((r.reached tables n).read (tables n)).outcome

private theorem keeps_reached {P : Cursor → Prop} (hnext : ∀ c, P c → P c.next.2) (h : P r.cursor)
    (tables : Nat → SymbolTable) (n : Nat) : P (r.reached tables n).cursor := by
  induction n with
  | zero => exact h
  | succ n ih => exact keeps_read hnext ih _

theorem outcomeAt_mono {m : Nat} (h : r.outcomeAt tables m = .ok none) (hle : m ≤ n) :
    r.outcomeAt tables n = .ok none := by
  suffices hend : (r.reached tables n).skipBlanks.cursor.upcoming = [] by
    rw [outcomeAt, read_at_end hend]
  induction n, hle using Nat.le_induction with
  | base => exact at_end_of_read h
  | succ n _ ih => rw [reached, read_at_end ih, upcoming_skipBlanks_eq, ih]; rfl

theorem remaining_reached (h : ∀ m < n, r.outcomeAt tables m ≠ .ok none) :
    (r.reached tables n).cursor.remaining + n ≤ r.cursor.remaining := by
  induction n with
  | zero => exact Nat.le_refl _
  | succ n ih =>
    have hbefore := ih fun m hm => h m (Nat.lt_succ_of_lt hm)
    have hless := remaining_read_lt (h n (Nat.lt_succ_self n))
    rw [reached]
    omega

/-- From some reading on, and not before, all report the end of the text. -/
theorem exists_last (r : Reader) (tables : Nat → SymbolTable) :
    ∃ last ≤ r.cursor.remaining, ∀ n, r.outcomeAt tables n = .ok none ↔ last ≤ n := by
  have hends : ∃ n, r.outcomeAt tables n = .ok none := by
    by_contra hnever
    have hle := remaining_reached (n := r.cursor.remaining + 1)
      fun m _ hm => hnever ⟨m, hm⟩
    omega
  have hbefore := remaining_reached (n := Nat.find hends) fun m hm => Nat.find_min hends hm
  refine ⟨Nat.find hends, by omega, fun n => ⟨Nat.find_min' hends, ?_⟩⟩
  exact outcomeAt_mono (Nat.find_spec hends)

/-- Reading a text over and over, with whatever symbol tables, always makes progress. The position
is never behind the end of the text and always between two characters; every reading but those that
report the end moves it on; and after no more readings than there are characters all report the end.
Where a symbol is read its token is not empty, so a delimiter in its place is never reported. -/
theorem reading_makes_progress (source : String) (tables : Nat → SymbolTable) :
    (∀ n, ((ofString source).reached tables n).offset ≤ source.utf8ByteSize ∧
      (⟨((ofString source).reached tables n).offset⟩ : String.Pos.Raw).IsValid source) ∧
    (∀ n, (ofString source).outcomeAt tables n ≠ .ok none →
      ((ofString source).reached tables n).offset <
        ((ofString source).reached tables (n + 1)).offset) ∧
    (∃ last ≤ source.length, ∀ n, (ofString source).outcomeAt tables n = .ok none ↔ last ≤ n) ∧
    (∀ r : Reader, r.skipBlanks.cursor.atEnd = false → r.skipBlanks.cursor.AtSymbol →
      r.skipBlanks.cursor.readToken.1 ≠ []) ∧
    ∀ n ch line, (ofString source).outcomeAt tables n = .error (.unexpectedChar ch line) →
      IsRefused ch := by
  have hstands (n : Nat) : ((ofString source).reached tables n).cursor.StandsIn source.toList :=
    keeps_reached (fun _ => Cursor.StandsIn.next) (Cursor.standsIn_ofString source) tables n
  refine ⟨fun n => ?_, fun n hsome => ?_, ?_, fun r => token_ne_nil, ?_⟩
  · exact ⟨(hstands n).isValid.le_utf8ByteSize, (hstands n).isValid⟩
  · exact (hstands n).offset_lt (hstands (n + 1)) (remaining_read_lt hsome)
  · have hremaining : (ofString source).cursor.remaining = source.length := by
      rw [← Cursor.length_upcoming]
      exact String.length_toList
    rw [← hremaining]
    exact exists_last _ tables
  · exact fun n ch line => read_unexpectedChar

/-- A full table, an unknown escape, a bad number, a misplaced point, a stray parenthesis and a list
that does not end, among characters of one byte and of two: each reading goes on, up to the end. -/
theorem faulty_text_is_used_up :
    (∀ n < 7, (ofString "λ \"é\\q 1λ (. λ) (").outcomeAt
        (fun _ => SymbolTable.withCapacity 1 (some 1) (fun _ => 0)) n ≠ .ok none) ∧
      ((ofString "λ \"é\\q 1λ (. λ) (").reached
        (fun _ => SymbolTable.withCapacity 1 (some 1) (fun _ => 0)) 6).offset <
      ((ofString "λ \"é\\q 1λ (. λ) (").reached
        (fun _ => SymbolTable.withCapacity 1 (some 1) (fun _ => 0)) 7).offset := by
  have hsome : ∀ n < 7, (ofString "λ \"é\\q 1λ (. λ) (").outcomeAt
      (fun _ => SymbolTable.withCapacity 1 (some 1) (fun _ => 0)) n ≠ .ok none := by
    decide +kernel
  exact ⟨hsome, (reading_makes_progress _ _).2.1 6 (hsome 6 (by decide))⟩

end Reader
end MiniScheme
