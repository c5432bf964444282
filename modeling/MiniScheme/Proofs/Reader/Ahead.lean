import MiniScheme.Proofs.Reader.Descent
import MiniScheme.Proofs.Reader.Faults
/-! # Reading with more text ahead

A text whose last line is ended is read the same when more text follows, as long as reading does not
run into its end: a line end delimits every token and ends every comment.
-/
namespace MiniScheme

open Text (Cursor isBlank isDelimiter)

namespace Text

/-- Every line of the text is ended. -/
def Lined (cs : List Char) : Prop := ∀ ch ∈ cs.getLast?, ch = '\n'

theorem lined_concat (cs : List Char) : Lined (cs ++ ['\n']) := by
  intro ch hch
  simpa [eq_comm] using hch

private theorem Lined.tail {ch : Char} {cs : List Char} (h : Lined (ch :: cs)) : Lined cs := by
  intro last hlast
  apply h last
  cases cs with
  | nil => simp at hlast
  | cons c cs => rwa [List.getLast?_cons_cons]

theorem Lined.drop {cs : List Char} (h : Lined cs) (n : Nat) : Lined (cs.drop n) := by
  induction n generalizing cs with
  | zero => exact h
  | succ n ih =>
    cases cs with
    | nil => exact h
    | cons ch cs => exact ih h.tail

private theorem Lined.exists_isDelimiter {cs : List Char} (h : Lined cs) (hne : cs ≠ []) :
    ∃ ch ∈ cs, isDelimiter ch = true := by
  obtain rfl | ⟨before, last, rfl⟩ := cs.eq_nil_or_concat
  · contradiction
  · obtain rfl : last = '\n' := h last (by simp)
    exact ⟨'\n', by simp, by decide⟩

/-- A token of the text does not go on in `more`. -/
def Parted (cs more : List Char) : Prop := (∃ ch ∈ cs, isDelimiter ch = true) ∨ Ends more

private theorem Lined.parted {cs : List Char} (h : Lined cs) (hne : cs ≠ []) (more : List Char) :
    Parted cs more :=
  .inl (h.exists_isDelimiter hne)

theorem Parted.of_suffix {cs cs' more : List Char} (h : Parted cs more) (hsuffix : cs <:+ cs') :
    Parted cs' more :=
  h.imp (fun hdelim => hdelim.imp fun _ hch => hch.imp (hsuffix.subset ·) id) id

theorem Parted.exists_token_split {cs more : List Char} (h : Parted cs more) :
    ∃ token after, cs = token ++ after ∧ (∀ ch ∈ token, isDelimiter ch = false) ∧ Ends after ∧
      Ends (after ++ more) := by
  induction cs with
  | nil => exact ⟨[], [], rfl, by simp, ends_nil, h.resolve_left (by simp)⟩
  | cons c cs ih =>
    cases hc : isDelimiter c with
    | true => exact ⟨[], c :: cs, rfl, by simp, ends_cons hc _, ends_cons hc _⟩
    | false =>
      obtain ⟨token, after, rfl, htoken, hafter, hmore⟩ := ih (h.imp (by simp [hc]) id)
      exact ⟨c :: token, after, rfl, by simpa [hc] using htoken, hafter, hmore⟩

namespace Cursor

/-- The same position in a text that goes on with `more`. -/
def extend (c : Cursor) (more : List Char) : Cursor := { c with rest := c.rest ++ more }

variable {c : Cursor} {cs more : List Char}

@[simp] theorem upcoming_extend (c : Cursor) (more : List Char) :
    (c.extend more).upcoming = c.upcoming ++ more := by
  simp [extend, upcoming]

theorem next_extend (h : c.upcoming ≠ []) (more : List Char) :
    (c.extend more).next.2 = c.next.2.extend more := by
  obtain ⟨pushed, rest, position, line⟩ := c
  match pushed, rest with
  | _ :: _, _ => rfl
  | [], _ :: _ => rfl
  | [], [] => simp [upcoming] at h

theorem peek_extend (h : c.upcoming ≠ []) (more : List Char) : (c.extend more).peek = c.peek := by
  obtain ⟨pushed, rest, position, line⟩ := c
  match pushed, rest with
  | _ :: _, _ => rfl
  | [], _ :: _ => rfl
  | [], [] => simp [upcoming] at h

theorem advance_extend {n : Nat} (h : n ≤ c.upcoming.length) (more : List Char) :
    (c.extend more).advance n = (c.advance n).extend more := by
  induction n generalizing c with
  | zero => rfl
  | succ n ih =>
    have hne : c.upcoming ≠ [] := by
      rintro heq
      simp [heq] at h
    rw [advance, advance, next_extend hne, ih]
    rw [upcoming_next, List.length_drop]
    omega

private theorem blankLength_append {b : Bool} {count : Nat}
    (h : blankLength b count cs < count + cs.length) (more : List Char) :
    blankLength b count (cs ++ more) = blankLength b count cs := by
  induction cs generalizing b count with
  | nil => simp [blankLength] at h
  | cons ch cs ih =>
    have hnext {b : Bool} (h : blankLength b (count + 1) cs < count + (ch :: cs).length) :
        blankLength b (count + 1) (cs ++ more) = blankLength b (count + 1) cs := by
      apply ih
      rw [List.length_cons] at h
      omega
    rw [List.cons_append]
    simp only [blankLength] at h ⊢
    by_cases hcomment : b = true
    · rw [if_pos hcomment] at h
      rw [if_pos hcomment, if_pos hcomment, hnext h]
    rw [if_neg hcomment] at h
    rw [if_neg hcomment, if_neg hcomment]
    by_cases hblank : isBlank ch = true
    · rw [if_pos hblank] at h
      rw [if_pos hblank, if_pos hblank, hnext h]
    rw [if_neg hblank] at h
    rw [if_neg hblank, if_neg hblank]
    by_cases hmark : ch = ';'
    · rw [if_pos hmark] at h
      rw [if_pos hmark, if_pos hmark, hnext h]
    · rw [if_neg hmark, if_neg hmark]

theorem skipBlanks_extend (h : c.skipBlanks.upcoming ≠ []) (more : List Char) :
    (c.extend more).skipBlanks = c.skipBlanks.extend more := by
  rw [skipBlanks, upcoming_advance, Ne, List.drop_eq_nil_iff, Nat.not_le] at h
  rw [skipBlanks, upcoming_extend, blankLength_append (by omega), advance_extend (by omega),
    skipBlanks]

theorem readToken_extend (h : Parted c.upcoming more) :
    (c.extend more).readToken = (c.readToken.1, c.readToken.2.extend more) := by
  obtain ⟨token, after, hcs, htoken, hafter, hmore⟩ := h.exists_token_split
  have hchars : tokenChars c.upcoming = token := by
    rw [hcs, tokenChars_append htoken hafter]
  have hextend : tokenChars (c.extend more).upcoming = token := by
    rw [upcoming_extend, hcs, List.append_assoc, tokenChars_append htoken hmore]
  have hle : token.length ≤ c.upcoming.length := by simp [hcs]
  rw [readToken, readToken, hextend, hchars, advance_extend hle]

theorem startsNumber_extend (h : Parted cs more) :
    startsNumber (cs ++ more) = startsNumber cs := by
  obtain ⟨token, after, rfl, -, hafter, hmore⟩ := h.exists_token_split
  rw [List.append_assoc]
  by_cases hne : token = []
  · have hnot {cs : List Char} (hends : Ends cs) : startsNumber cs = false := by
      cases hstarts : startsNumber cs with
      | false => rfl
      | true =>
        cases cs with
        | nil => simp [startsNumber] at hstarts
        | cons ch cs =>
          have hch := hends ch rfl
          simp [Reader.not_isDelimiter_of_startsNumber hstarts] at hch
    rw [hne, List.nil_append, List.nil_append, hnot hafter, hnot hmore]
  · rw [startsNumber_append hne hafter, startsNumber_append hne hmore]

theorem startsLoneDot_extend (h : Parted cs more) (hne : cs ≠ []) :
    startsLoneDot (cs ++ more) = startsLoneDot cs := by
  match cs with
  | [] => contradiction
  | [ch] =>
    by_cases hdot : ch = '.'
    · subst hdot
      have hpoint : isDelimiter '.' = false := by decide
      have hends : Ends more := h.resolve_left (by simp [hpoint])
      cases more with
      | nil => rfl
      | cons d more => exact hends d rfl
    · simp [startsLoneDot, hdot]
  | ch :: ch' :: cs =>
    by_cases hdot : ch = '.'
    · simp [hdot, startsLoneDot]
    · simp [startsLoneDot, hdot]

end Cursor
end Text

namespace Reader

open Text (Lined)

def extend (r : Reader) (more : List Char) : Reader := { r with cursor := r.cursor.extend more }

theorem extend_nil (r : Reader) : r.extend [] = r := by
  simp [extend, Cursor.extend]

def AtomRead.extend (a : AtomRead) (more : List Char) : AtomRead :=
  { a with cursor := a.cursor.extend more }

end Reader

namespace Reading

variable {α : Type}

def extend (reading : Reading α) (more : List Char) : Reading α :=
  { reading with reader := reading.reader.extend more }

end Reading

/-- The text may have ended too early. -/
def Incomplete {α : Type} : Except ReadError α → Prop
  | .ok _ => False
  | .error e => e.isIncomplete = true

theorem ReadError.kind_eq_unexpectedEnd {e : ReadError} :
    e.kind = .unexpectedEnd ↔ e.isIncomplete = true := by
  cases e <;> simp [kind, isIncomplete]

/-- A text of blanks and comments makes no difference to what follows, if its last line is ended there
or by what follows. -/
theorem Grammar.afterBlanks_append {cs more : List Char}
    (h : Text.Lined cs ∨ more.head? = some '\n') :
    (afterBlanks cs = [] → afterBlanks (cs ++ more) = afterBlanks more) ∧
      ((cs = [] → more.head? = some '\n') → afterComment cs = [] →
        afterComment (cs ++ more) = afterBlanks more) := by
  induction cs with
  | nil =>
    refine ⟨fun _ => rfl, fun hnil _ => ?_⟩
    obtain ⟨rest, rfl⟩ := List.head?_eq_some_iff.mp (hnil rfl)
    simp [afterBlanks, afterComment, isBlank]
  | cons ch cs ih =>
    obtain ⟨ihblanks, ihcomment⟩ := ih (h.imp Text.Lined.tail id)
    have hline (hch : ch ≠ '\n') : cs = [] → more.head? = some '\n' := by
      rintro rfl
      exact h.resolve_left fun hlined => hch (hlined ch rfl)
    refine ⟨?_, ?_⟩
    · intro hblanks
      rw [List.cons_append]
      simp only [afterBlanks] at hblanks ⊢
      by_cases hblank : isBlank ch = true
      · rw [if_pos hblank] at hblanks ⊢
        exact ihblanks hblanks
      rw [if_neg hblank] at hblanks ⊢
      by_cases hmark : ch = ';'
      · rw [if_pos hmark] at hblanks ⊢
        exact ihcomment (hline (by rw [hmark]; decide)) hblanks
      · simp [if_neg hmark] at hblanks
    · intro _ hcomment
      rw [List.cons_append]
      simp only [afterComment] at hcomment ⊢
      by_cases hend : ch = '\n'
      · rw [if_pos hend] at hcomment ⊢
        exact ihblanks hcomment
      · rw [if_neg hend] at hcomment ⊢
        exact ihcomment (hline hend) hcomment

namespace Reader

open Text (Lined Parted)

variable {r : Reader} {c : Cursor} {symbols : SymbolTable} {stack : List Unclosed}
  {more : List Char}

theorem ne_escape {ch : Char} {cs : List Char} (hslash : ch = '\\' → cs = [] → False)
    (hescape : ∀ letter rest, ch = '\\' → cs = letter :: rest → False) : ch ≠ '\\' := by
  intro hch
  cases cs with
  | nil => exact hslash hch rfl
  | cons letter cs => exact hescape letter cs hch rfl

theorem scanString_plain {ch : Char} (hquote : ch ≠ '"') (hslash : ch ≠ '\\') (reversed : List Char)
    (count : Nat) (cs : List Char) :
    scanString reversed count (ch :: cs) = scanString (ch :: reversed) (count + 1) cs := by
  rw [scanString]
  · exact hquote
  · exact fun hch _ => hslash hch
  · exact fun _ _ hch _ => hslash hch

theorem scanString_extend (reversed : List Char) (count : Nat) (cs more : List Char)
    (h : ∀ inside k, scanString reversed count cs ≠ .cut inside k) :
    scanString reversed count (cs ++ more) = scanString reversed count cs ∧
      (scanString reversed count cs).count ≤ count + cs.length := by
  fun_induction scanString reversed count cs with
  | case1 reversed count => exact absurd rfl (h _ _)
  | case2 reversed count rest =>
    refine ⟨rfl, ?_⟩
    rw [StringScan.count, List.length_cons]
    omega
  | case3 reversed count => exact absurd rfl (h _ _)
  | case4 reversed count letter cs ch hletter ih =>
    obtain ⟨heq, hle⟩ := ih h
    refine ⟨?_, ?_⟩
    · rw [← heq, List.cons_append, List.cons_append, scanString, hletter]
    · rw [List.length_cons, List.length_cons]
      omega
  | case5 reversed count letter cs hletter =>
    refine ⟨?_, ?_⟩
    · rw [List.cons_append, List.cons_append, scanString, hletter]
    · rw [StringScan.count, List.length_cons, List.length_cons]
      omega
  | case6 reversed count ch cs hquote hslash hescape ih =>
    obtain ⟨heq, hle⟩ := ih h
    refine ⟨?_, ?_⟩
    · rw [← heq, List.cons_append, scanString_plain hquote (ne_escape hslash hescape)]
    · rw [List.length_cons]
      omega

private theorem lt_count_scanString (reversed : List Char) (count : Nat) (cs : List Char)
    (h : ∀ inside k, scanString reversed count cs ≠ .cut inside k) :
    count < (scanString reversed count cs).count := by
  fun_induction scanString reversed count cs with
  | case1 reversed count => exact absurd rfl (h _ _)
  | case2 reversed count rest => exact Nat.lt_succ_self count
  | case3 reversed count => exact absurd rfl (h _ _)
  | case4 reversed count letter cs ch hletter ih => exact Nat.lt_trans (by omega) (ih h)
  | case5 reversed count letter cs hletter =>
    rw [StringScan.count]
    omega
  | case6 reversed count ch cs hquote hslash hescape ih =>
    exact Nat.lt_trans (Nat.lt_succ_self count) (ih h)

theorem lt_count_scanString_append (reversed : List Char) (count : Nat) (cs more : List Char)
    {inside : Unfinished} {k : Nat} (hcut : scanString reversed count cs = .cut inside k)
    (h : ∀ inside k, scanString reversed count (cs ++ more) ≠ .cut inside k) :
    count + cs.length < (scanString reversed count (cs ++ more)).count := by
  fun_induction scanString reversed count cs with
  | case1 reversed count => exact lt_count_scanString reversed count more h
  | case2 reversed count rest => simp at hcut
  | case3 reversed count =>
    cases more with
    | nil => exact absurd rfl (h _ _)
    | cons letter more =>
      rw [List.cons_append, List.nil_append, scanString] at h ⊢
      cases hletter : Text.unescapeLetter? letter with
      | none => exact Nat.lt_succ_self _
      | some ch =>
        rw [hletter] at h
        exact Nat.lt_trans (Nat.lt_succ_self _) (lt_count_scanString _ _ _ h)
  | case4 reversed count letter cs ch hletter ih =>
    have hnext : scanString reversed count ('\\' :: letter :: cs ++ more) =
        scanString (ch :: reversed) (count + 2) (cs ++ more) := by
      rw [List.cons_append, List.cons_append, scanString, hletter]
    rw [hnext] at h ⊢
    have hlt := ih hcut h
    rw [List.length_cons, List.length_cons]
    omega
  | case5 reversed count letter cs hletter => simp at hcut
  | case6 reversed count ch cs hquote hslash hescape ih =>
    rw [List.cons_append, scanString_plain hquote (ne_escape hslash hescape)] at h ⊢
    have hlt := ih hcut h
    rw [List.length_cons]
    omega

theorem readAtom_extend (hparted : Parted c.upcoming more) (hne : c.upcoming ≠ [])
    (h : ¬ Incomplete (readAtom c symbols).outcome) :
    readAtom (c.extend more) symbols = (readAtom c symbols).extend more := by
  have htoken := Cursor.readToken_extend hparted
  have hnumber : (c.extend more).nextIsNumber = c.nextIsNumber := by
    rw [Cursor.nextIsNumber, Cursor.upcoming_extend, Cursor.startsNumber_extend hparted,
      Cursor.nextIsNumber]
  have hline : (c.extend more).line = c.line := rfl
  unfold readAtom at h ⊢
  rw [Cursor.peek_extend hne, hnumber]
  by_cases hstring : c.peek = '"'
  · rw [if_pos hstring] at h
    rw [if_pos hstring, if_pos hstring]
    obtain ⟨ch, cs, hcs⟩ := List.exists_cons_of_ne_nil hne
    have hcut (inside : Unfinished) (k : Nat) : scanString [] 0 cs ≠ .cut inside k := by
      intro hscan
      apply h
      simp [readString, hcs, hscan, Incomplete, ReadError.isIncomplete]
    obtain ⟨hscan, hcount⟩ := scanString_extend [] 0 cs more hcut
    have hle : (scanString [] 0 cs).count + 1 ≤ c.upcoming.length := by
      rw [hcs, List.length_cons]
      omega
    simp only [readString, Cursor.upcoming_extend, hcs, List.cons_append, List.drop_succ_cons,
      List.drop_zero, hscan, Cursor.advance_extend hle]
    rfl
  rw [if_neg hstring, if_neg hstring]
  by_cases hhash : c.peek = '#'
  · rw [if_pos hhash, if_pos hhash]
    simp only [readHash, htoken, hline]
    rfl
  rw [if_neg hhash, if_neg hhash]
  by_cases hnum : c.nextIsNumber = true
  · rw [if_pos hnum, if_pos hnum]
    simp only [readNumber, htoken, hline]
    rfl
  rw [if_neg hnum, if_neg hnum]
  simp only [readSymbol, htoken, hline, Cursor.peek_extend hne, Cursor.next_extend hne]
  split
  · rfl
  split <;> rfl

private theorem quoteSymbol_extend (r : Reader) (symbols : SymbolTable) (more : List Char) :
    (r.extend more).quoteSymbol symbols = (r.quoteSymbol symbols).extend more := by
  unfold quoteSymbol
  have hquotation : (r.extend more).quotation = r.quotation := rfl
  rw [hquotation]
  split
  · rfl
  split <;> rfl

private theorem complete_extend (r : Reader) (symbols : SymbolTable) (stack : List Unclosed)
    (d : Datum) (more : List Char) :
    (r.extend more).complete symbols stack d = (r.complete symbols stack d).extend more := by
  induction stack generalizing r symbols d with
  | nil => rfl
  | cons form stack ih =>
    cases form with
    | quotation =>
      rw [complete, complete, quoteSymbol_extend]
      rcases r.quoteSymbol symbols with ⟨outcome, r', symbols'⟩
      cases outcome with
      | ok x => exact ih r' symbols' _
      | error e => rfl
    | list reversed => rfl
    | dotted reversed => rfl
    | ended reversed tail => rfl

theorem not_incomplete_complete (r : Reader) (symbols : SymbolTable) (stack : List Unclosed)
    (d : Datum) : ¬ Incomplete (r.complete symbols stack d).outcome := by
  cases houtcome : (r.complete symbols stack d).outcome with
  | ok progress => exact id
  | error e =>
    rcases complete_error houtcome with ⟨cause, rfl⟩ | ⟨line, rfl⟩ <;>
      simp [Incomplete, ReadError.isIncomplete]

private theorem step_extend (hparted : Parted r.cursor.upcoming more) (hne : r.cursor.upcoming ≠ [])
    (h : ¬ Incomplete (r.step symbols stack).outcome) :
    (r.extend more).step symbols stack = (r.step symbols stack).extend more := by
  have hpeek : (r.extend more).cursor.peek = r.cursor.peek := Cursor.peek_extend hne more
  have hnext : (r.extend more).cursor.next.2 = r.cursor.next.2.extend more :=
    Cursor.next_extend hne more
  have hline : (r.extend more).cursor.line = r.cursor.line := rfl
  have hdot : (r.extend more).cursor.nextIsLoneDot = r.cursor.nextIsLoneDot := by
    rw [Cursor.nextIsLoneDot, extend, Cursor.upcoming_extend,
      Cursor.startsLoneDot_extend hparted hne, Cursor.nextIsLoneDot]
  unfold step at h ⊢
  simp only [hpeek, hnext, hline, hdot] at h ⊢
  by_cases hopen : r.cursor.peek = '('
  · rw [if_pos hopen, if_pos hopen]
    rfl
  rw [if_neg hopen] at h
  rw [if_neg hopen, if_neg hopen]
  by_cases hquote : r.cursor.peek = '\''
  · rw [if_pos hquote, if_pos hquote]
    rfl
  rw [if_neg hquote] at h
  rw [if_neg hquote, if_neg hquote]
  by_cases hclose : r.cursor.peek = ')'
  · rw [if_pos hclose, if_pos hclose]
    cases close r.cursor.line stack with
    | ok closed => exact complete_extend { r with cursor := r.cursor.next.2 } symbols _ _ more
    | error e => rfl
  rw [if_neg hclose] at h
  rw [if_neg hclose, if_neg hclose]
  by_cases hpoint : r.cursor.nextIsLoneDot = true
  · rw [if_pos hpoint, if_pos hpoint]
    cases dot r.cursor.line stack <;> rfl
  rw [if_neg hpoint] at h
  rw [if_neg hpoint, if_neg hpoint]
  have hatom : ¬ Incomplete (readAtom r.cursor symbols).outcome := by
    rcases hread : readAtom r.cursor symbols with ⟨outcome, cursor, symbols'⟩
    rw [hread] at h
    cases outcome with
    | ok d => exact id
    | error e => exact h
  have hextend : readAtom (r.extend more).cursor symbols = (readAtom r.cursor symbols).extend more :=
    readAtom_extend hparted hne hatom
  rw [hextend]
  rcases readAtom r.cursor symbols with ⟨outcome, cursor, symbols'⟩
  cases outcome with
  | ok d => exact complete_extend { r with cursor := cursor } symbols' stack d more
  | error e => rfl

theorem skipBlanks_extend (h : r.skipBlanks.cursor.upcoming ≠ []) (more : List Char) :
    (r.extend more).skipBlanks = r.skipBlanks.extend more := by
  have hcursor : (r.extend more).cursor.skipBlanks = r.cursor.skipBlanks.extend more :=
    Cursor.skipBlanks_extend h more
  rw [skipBlanks, hcursor]
  rfl

private theorem lined_skipBlanks (h : Lined r.cursor.upcoming) :
    Lined r.skipBlanks.cursor.upcoming := by
  rw [skipBlanks, Cursor.skipBlanks, Cursor.upcoming_advance]
  exact h.drop _

theorem parted_skipBlanks (h : Lined r.cursor.upcoming) (hend : ¬ r.skipBlanks.cursor.atEnd = true) :
    Parted r.skipBlanks.cursor.upcoming more :=
  (lined_skipBlanks h).parted (mt Cursor.atEnd_iff.mpr hend) more

theorem lined_of_step {after : Reader} {symbols' : SymbolTable}
    {outcome : Except ReadError Progress} (h : Lined r.cursor.upcoming)
    (hstep : r.skipBlanks.step symbols stack = ⟨outcome, after, symbols'⟩) :
    Lined after.cursor.upcoming := by
  have hkeeps := keeps_step (P := fun c => Lined c.upcoming)
    (fun c hc => by rw [Cursor.upcoming_next]; exact hc.drop 1) (lined_skipBlanks h) symbols stack
  rwa [hstep] at hkeeps

theorem readDatum_extend_step (hparted : Parted r.skipBlanks.cursor.upcoming more)
    (hend : ¬ r.skipBlanks.cursor.atEnd = true)
    (h : ¬ Incomplete (r.skipBlanks.step symbols stack).outcome) :
    (r.extend more).readDatum symbols stack =
      resume ((r.skipBlanks.step symbols stack).extend more) := by
  have hne := mt Cursor.atEnd_iff.mpr hend
  obtain ⟨ch, cs, hcs⟩ := List.exists_cons_of_ne_nil hne
  have hskip := skipBlanks_extend hne more
  have hupcoming : (r.extend more).skipBlanks.cursor.upcoming = ch :: (cs ++ more) := by
    rw [hskip, extend, Cursor.upcoming_extend, hcs, List.cons_append]
  rw [readDatum_eq_resume hupcoming, hskip, step_extend hparted hne h]

/-- Reading that does not run into the end is the same with more text ahead. -/
theorem readDatum_extend (hlined : Lined r.cursor.upcoming)
    (h : ¬ Incomplete (r.readDatum symbols stack).outcome) (more : List Char) :
    (r.extend more).readDatum symbols stack = (r.readDatum symbols stack).extend more := by
  fun_induction readDatum r symbols stack with
  | case1 r symbols stack hend => exact absurd rfl h
  | case2 r symbols stack hend d after symbols' hstep =>
    rw [readDatum_extend_step (parted_skipBlanks hlined hend) hend (by rw [hstep]; exact id), hstep]
    rfl
  | case3 r symbols stack hend stack' after symbols' hstep ih =>
    rw [readDatum_extend_step (parted_skipBlanks hlined hend) hend (by rw [hstep]; exact id), hstep]
    exact ih (lined_of_step hlined hstep) h
  | case4 r symbols stack hend e after symbols' hstep =>
    rw [readDatum_extend_step (parted_skipBlanks hlined hend) hend (by rw [hstep]; exact h), hstep]
    rfl

end Reader
end MiniScheme
