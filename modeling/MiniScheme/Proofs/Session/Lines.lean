import MiniScheme.Proofs.Machine.Symbols
import MiniScheme.Proofs.Reader.RoundTrip
import MiniScheme.Proofs.Session.Holding
/-! # Feeding lines

A session that is fed a text line by line runs the text as a whole. Each line is read behind the
text that is still pending; what a line completes is read there as in the whole text, and what it
leaves incomplete is read again with the next one. While a datum is evaluated, the session holds the
values of the data before it that the same line completed. A source holds only the value before, and
so the two come to the same unless a definition that names a closure notices which values are held.
-/
namespace MiniScheme

open Text (Lined)

private theorem Reader.Reads.grow {whole r : Reader} {more : List Char}
    {symbols symbols' : SymbolTable}
    (h : whole.Reads r more symbols) (hgrows : symbols.Grows symbols') :
    whole.Reads r more symbols' :=
  ⟨h.ready.grow hgrows rfl, h.partReady.grow hgrows rfl, h.lined, h.text⟩

def Feed.results : Feed → List (Except EvalError Value)
  | needMore => []
  | evaluated results => results

namespace Session

/-- The text of lines, each of them ended. -/
def wholeText : List String → String
  | [] => ""
  | line :: lines => line ++ "\n" ++ wholeText lines

/-- How many lines are there wholly among the last `left` characters of their text. -/
def linesBehind : List String → Nat → Nat
  | [], _ => 0
  | line :: lines, left =>
    if (wholeText (line :: lines)).toList.length ≤ left then lines.length + 1
    else linesBehind lines left

/-- Holding on to the values of the data that the same line has completed. -/
def sameLine (lines : List String) (done : Done) (left : Nat) : List Value :=
  (done.filter (fun p => linesBehind lines p.1 == linesBehind lines left)).map Prod.snd

/-- Feed lines one after the other, up to the first error. -/
def feedAll (fuel : Nat) (s : Session) :
    List String → Option (List (Except EvalError Value) × Session)
  | [] => some ([], s)
  | line :: lines =>
    match s.feed fuel line with
    | none => none
    | some (feed, s) =>
      if feed.results.all (·.isOk) then
        match feedAll fuel s lines with
        | none => none
        | some (others, s) => some (feed.results ++ others, s)
      else some (feed.results, s)

def results (new : Done) : List (Except EvalError Value) := (new.map (fun p => .ok p.2)).reverse

/-- What a session reports when the run of its text has ended: the values in order and then the
error. Text is pending if it ended too early, and only then. -/
inductive Reports (new : Done) : Ending → List (Except EvalError Value) → Session → Prop
  | finished (i : Interpreter) : Reports new .finished (results new) ⟨i, ""⟩
  | incomplete (e : ReadError) (i : Interpreter) (pending : String) (early : e.isIncomplete = true)
    (some : pending ≠ "") : Reports new (.unreadable e) (results new) ⟨i, pending⟩
  | unreadable (e e' : ReadError) (i : Interpreter) (late : e.isIncomplete = false)
    (same : e'.kind = e.kind) :
    Reports new (.unreadable e) (results new ++ [.error e'.toEvalError]) ⟨i, ""⟩
  | failed (e : EvalError) (i : Interpreter) :
    Reports new (.failed e) (results new ++ [.error e]) ⟨i, ""⟩

/-- A session goes on as `i` would with the pending text ahead. -/
inductive Waits : Session → Interpreter → Prop
  | ready (i : Interpreter) : Waits ⟨i, ""⟩ i
  | pending (i : Interpreter) (text : String) (lined : Lined text.toList)
    (incomplete : Incomplete ((Reader.ofString text).read i.symbols).outcome) :
    Waits ⟨i.withSymbols ((Reader.ofString text).read i.symbols).symbols, text⟩ i

variable {s s' : Session} {i i' j : Interpreter} {r whole : Reader} {all lines : List String}
  {line : String} {done final new : Done} {ending : Ending} {fuel fuel' : Nat}

private theorem toList_wholeText (line : String) (lines : List String) :
    (wholeText (line :: lines)).toList = line.toList ++ '\n' :: (wholeText lines).toList := by
  simp [wholeText, String.toList_append]

private theorem linesBehind_eq (before : List String) (line : String) {lines : List String}
    {left : Nat} (hle : (wholeText lines).toList.length ≤ left)
    (hlt : left < (wholeText (line :: lines)).toList.length) :
    linesBehind (before ++ line :: lines) left = lines.length := by
  induction before with
  | nil =>
    rw [List.nil_append, linesBehind, if_neg (Nat.not_le.mpr hlt)]
    cases lines with
    | nil => rfl
    | cons next lines => rw [linesBehind, if_pos hle, List.length_cons]
  | cons first before ih =>
    have hlonger : (wholeText (line :: lines)).toList.length ≤
        (wholeText (before ++ line :: lines)).toList.length := by
      clear ih
      induction before with
      | nil => exact Nat.le_refl _
      | cons next before ih =>
        rw [List.cons_append, toList_wholeText next, List.length_append, List.length_cons]
        omega
    have hfirst : ¬ (wholeText (first :: (before ++ line :: lines))).toList.length ≤ left := by
      rw [toList_wholeText first, List.length_append, List.length_cons]
      omega
    rw [List.cons_append, linesBehind, if_neg hfirst, ih]

theorem ofString_extend (text line : String) :
    Reader.ofString (text ++ line ++ "\n") =
      (Reader.ofString text).extend (line.toList ++ ['\n']) := by
  simp [Reader.ofString, Reader.extend, Text.Cursor.ofString, Text.Cursor.extend,
    String.toList_append]

private theorem Waits.readValue (h : Waits s i) (hsymbols : i.symbols.InOrder) (line : String) :
    s.interpreter.readValue (Reader.ofString (s.pending ++ line ++ "\n")) =
      i.readValue (Reader.ofString (s.pending ++ line ++ "\n")) := by
  cases h with
  | ready i => rfl
  | pending i text hlined hincomplete =>
    have hagain := Reader.read_again (r := Reader.ofString text) hsymbols hlined hincomplete
      (line.toList ++ ['\n'])
    rw [← ofString_extend] at hagain
    have hsame : (i.withSymbols ((Reader.ofString text).read i.symbols).symbols).symbols =
      ((Reader.ofString text).read i.symbols).symbols := rfl
    rw [Interpreter.readValue_eq, Interpreter.readValue_eq, hsame, hagain,
      Interpreter.receive_withSymbols]

private theorem Waits.evalData (h : Waits s i) (hsymbols : i.symbols.InOrder) (line : String)
    (fuel : Nat) :
    Session.evalData fuel s.interpreter (Reader.ofString (s.pending ++ line ++ "\n")) [] =
      Session.evalData fuel i (Reader.ofString (s.pending ++ line ++ "\n")) [] := by
  cases fuel with
  | zero => rfl
  | succ fuel => rw [Session.evalData, Session.evalData, h.readValue hsymbols line]

theorem Waits.remaining_lt (h : Waits s i) {d : Datum} {r : Reader} {symbols : SymbolTable}
    (hread : (Reader.ofString (s.pending ++ line ++ "\n")).read i.symbols =
      ⟨.ok (some d), r, symbols⟩) : r.cursor.remaining < line.toList.length + 1 := by
  cases h with
  | ready i =>
    have hlt := Reader.remaining_read hread
    simpa [Reader.ofString, Text.Cursor.ofString, Text.Cursor.remaining, String.toList_append]
      using hlt
  | pending i text hlined hincomplete =>
    rw [ofString_extend] at hread
    have hlt := Reader.remaining_read_extend (r := Reader.ofString text) hlined hincomplete
      (line.toList ++ ['\n']) (by rw [hread]; exact id)
    rw [hread] at hlt
    simpa using hlt

/-- The run of the whole text stands at `whole`, where the session waits for these lines. -/
structure Stands (s : Session) (lines : List String) (i : Interpreter) (whole : Reader) : Prop where
  waits : Waits s i
  ready : whole.Ready i.symbols
  text : Grammar.afterBlanks whole.cursor.upcoming =
    Grammar.afterBlanks (s.pending.toList ++ (wholeText lines).toList)

/-- The error that a session tells of when a run has ended like this. -/
def Ending.Tells : Ending → EvalError → Prop
  | finished, _ => False
  | unreadable e, told =>
    e.isIncomplete = false ∧ ∃ e' : ReadError, e'.kind = e.kind ∧ told = e'.toEvalError
  | failed e, told => told = e

/-- A reader of the line before `lines` is at the same datum as one of the whole text. What the
line completes ends within its `size` characters; of the values before, those in `reversed` come from
the same line. -/
structure OnLine (all lines : List String) (size : Nat) (i : Interpreter) (r whole : Reader)
    (done : Done) (reversed : List (Except EvalError Value)) : Prop where
  reads : whole.Reads r (wholeText lines).toList i.symbols
  place : ∀ left, (wholeText lines).toList.length ≤ left →
    left < size + (wholeText lines).toList.length → linesBehind all left = lines.length
  within : ∀ {d : Datum} {after : Reader} {symbols : SymbolTable},
    r.read i.symbols = ⟨.ok (some d), after, symbols⟩ → after.cursor.remaining < size
  held : (done.filter (fun p => linesBehind all p.1 == lines.length)).map Prod.snd =
    valuesOf reversed

section OnLine

variable {size : Nat} {reversed out : List (Except EvalError Value)} {after : Reader}
  {expr : Value} {pending : String} {e : ReadError}

/-- The next datum is the same in the line and in the whole text, and the same values are held while
it is evaluated. -/
theorem OnLine.datum (h : OnLine all lines size i r whole done reversed)
    (hread : i.readValue r = (.ok (some expr), after, i')) :
    ∃ whole', i.readValue whole = (.ok (some expr), whole', i') ∧
      sameLine all done whole'.cursor.remaining = valuesOf reversed ∧
      linesBehind all whole'.cursor.remaining = lines.length ∧
      ∀ {fuel : Nat} {caller : Held} {v : Value} {i'' : Interpreter},
        i'.evaluate fuel caller expr i'.global = some (.ok v, i'') →
        OnLine all lines size i'' after whole' ((whole'.cursor.remaining, v) :: done)
          (.ok v :: reversed) := by
  obtain ⟨d, symbols, hpart, hreceive⟩ := Interpreter.read_of_readValue_some hread
  obtain ⟨whole', hwhole, hreads, hupcoming⟩ := h.reads.datum hpart
  have hremaining : whole'.cursor.remaining =
      after.cursor.remaining + (wholeText lines).toList.length := by
    rw [← Text.Cursor.length_upcoming, hupcoming, List.length_append, Text.Cursor.length_upcoming]
  have hwithin := h.within hpart
  have hplace : linesBehind all whole'.cursor.remaining = lines.length := by
    apply h.place <;> omega
  have hsymbols : i'.symbols = symbols := by
    have hsame := Interpreter.symbols_receive i (.ok (some d)) symbols
    rwa [hreceive] at hsame
  refine ⟨whole', ?_, ?_, hplace, ?_⟩
  · rw [Interpreter.readValue_of_read hwhole, hreceive]
  · rw [sameLine, hplace, h.held]
  · intro fuel caller v i'' heval
    have hgrows : i'.symbols.Grows i''.symbols :=
      Interpreter.grows_evaluate (by rw [hsymbols]; exact hreads.ready.inOrder) heval
    rw [hsymbols] at hgrows
    refine ⟨hreads.grow hgrows, h.place, ?_, ?_⟩
    · intro d' after' symbols' hnext
      exact Nat.lt_trans (Reader.remaining_read hnext) hwithin
    · rw [List.filter_cons_of_pos (by simp [hplace]), List.map_cons, h.held]
      rfl

theorem OnLine.blank (h : OnLine all lines size i r whole done reversed)
    (hread : i.readValue r = (.ok none, after, i')) : Stands ⟨i', ""⟩ lines i whole := by
  obtain ⟨hpart, hi⟩ := Interpreter.read_of_readValue_none hread
  have hnone : (r.read i.symbols).outcome = .ok none := by rw [hpart]
  have hsame : i'.symbols = i.symbols := by
    rw [Reader.read_at_end (Reader.at_end_of_read hnone)] at hpart
    exact (congrArg Reading.symbols hpart).symm
  have hi : i' = i := by
    rw [hi, hsame]
    rfl
  rw [hi]
  exact ⟨.ready i, h.reads.ready, h.reads.blank hnone⟩

theorem OnLine.error (h : OnLine all lines size i r whole done reversed)
    (hread : i.readValue r = (.error e, after, i')) (hlate : e.isIncomplete = false) :
    ∃ e', Runs (sameLine all) i whole done (.unreadable e') done i' ∧
      Ending.Tells (.unreadable e') e.toEvalError := by
  obtain ⟨hpart, hi⟩ := Interpreter.read_of_readValue_error hread
  obtain ⟨e', whole', hwhole, hkind⟩ := h.reads.error hpart hlate
  have hlate' : e'.isIncomplete = false := by
    rw [← Bool.not_eq_true, ← ReadError.kind_eq_unexpectedEnd] at hlate ⊢
    rwa [hkind]
  have hfails : i.readValue whole = (.error e', whole', i') := by
    rw [Interpreter.readValue_of_read hwhole, Interpreter.receive, ← hi]
  exact ⟨e', .unreadable hfails, hlate', e, hkind.symm, rfl⟩

theorem OnLine.incomplete (h : OnLine all lines size i r whole done reversed)
    (hread : i.readValue r = (.error e, after, i')) (hearly : e.isIncomplete = true) :
    Stands ⟨i', unread r⟩ lines i whole := by
  obtain ⟨hpart, hi⟩ := Interpreter.read_of_readValue_error hread
  have htext : (unread r).toList = r.cursor.upcoming := String.toList_ofList
  have hparse : (r.read i.symbols).parse = ((Reader.ofString (unread r)).read i.symbols).parse := by
    apply Reader.parse_congr h.reads.partReady
    · exact Reader.ready_ofString _ h.reads.ready.inOrder
    · rw [Reader.upcoming_ofString, htext]
  rcases hfresh : (Reader.ofString (unread r)).read i.symbols with ⟨outcome, fresh, symbols⟩
  rw [hpart, hfresh] at hparse
  obtain ⟨houtcome, -, hsymbols⟩ := Grammar.Parse.mk.inj hparse
  have hincomplete : Incomplete outcome := by
    cases outcome with
    | ok found => simp [Except.mapError] at houtcome
    | error e' =>
      have hkind : e.kind = e'.kind := by simpa [Except.mapError] using houtcome
      rw [Incomplete, ← ReadError.kind_eq_unexpectedEnd, ← hkind]
      exact ReadError.kind_eq_unexpectedEnd.mpr hearly
  have hwaits := Waits.pending i (unread r) (by rw [htext]; exact h.reads.lined)
    (by rw [hfresh]; exact hincomplete)
  rw [hfresh, show symbols = i'.symbols from hsymbols.symm, ← hi] at hwaits
  exact ⟨hwaits, h.reads.ready, by rw [h.reads.text, htext]⟩

/-- What a line comes to: an error that ends the run of the whole text as well, or nothing left to
do with the line, and the run of the whole text goes on behind it. -/
theorem evalData_runs (h : OnLine all lines size i r whole done reversed)
    (heval : evalData fuel i r reversed = some (out, pending, j)) :
    ∃ new : Done, (∀ p ∈ new, linesBehind all p.1 = lines.length) ∧
      ((∃ told ending, out = .error told :: (new.map (fun p => .ok p.2) ++ reversed) ∧
          pending = "" ∧ ending.Tells told ∧
          Runs (sameLine all) i whole done ending (new ++ done) j) ∨
        ∃ i' whole', out = new.map (fun p => .ok p.2) ++ reversed ∧
          Stands ⟨j, pending⟩ lines i' whole' ∧
          ∀ ending final j', Runs (sameLine all) i' whole' (new ++ done) ending final j' ↔
            Runs (sameLine all) i whole done ending final j') := by
  induction fuel generalizing i r whole done reversed with
  | zero => simp [evalData] at heval
  | succ fuel ih =>
    rw [evalData] at heval
    rcases hread : i.readValue r with ⟨outcome, after, i'⟩
    rw [hread] at heval
    match outcome with
    | .ok none =>
      obtain ⟨rfl, rfl, rfl⟩ : _ ∧ _ ∧ _ := by simpa using heval
      exact ⟨[], by simp, .inr ⟨i, whole, rfl, h.blank hread, fun _ _ _ => Iff.rfl⟩⟩
    | .error e =>
      cases hearly : e.isIncomplete with
      | true =>
        obtain ⟨rfl, rfl, rfl⟩ : _ ∧ _ ∧ _ := by simpa [hearly] using heval
        exact ⟨[], by simp, .inr ⟨i, whole, rfl, h.incomplete hread hearly, fun _ _ _ => Iff.rfl⟩⟩
      | false =>
        obtain ⟨rfl, rfl, rfl⟩ : _ ∧ _ ∧ _ := by simpa [hearly] using heval
        obtain ⟨e', hruns, htells⟩ := h.error hread hearly
        exact ⟨[], by simp, .inl ⟨_, _, rfl, rfl, htells, hruns⟩⟩
    | .ok (some expr) =>
      obtain ⟨whole', hwhole, hheld, hplace, hnext⟩ := h.datum hread
      dsimp only at heval
      cases hanswer : i'.evaluate fuel ⟨valuesOf reversed, []⟩ expr i'.global with
      | none => simp [hanswer] at heval
      | some answer =>
        obtain ⟨answer, i''⟩ := answer
        rw [hanswer] at heval
        have hsame := hanswer
        rw [← hheld] at hsame
        cases answer with
        | error e =>
          obtain ⟨rfl, rfl, rfl⟩ : _ ∧ _ ∧ _ := by simpa using heval
          exact ⟨[], by simp, .inl ⟨_, .failed e, rfl, rfl, rfl, .failed hwhole hsame⟩⟩
        | ok v =>
          obtain ⟨new, hnew, hends⟩ := ih (hnext hanswer) heval
          refine ⟨new ++ [(whole'.cursor.remaining, v)], ?_, ?_⟩
          · intro p hp
            rcases List.mem_append.mp hp with hp | hp
            · exact hnew p hp
            · rw [List.mem_singleton.mp hp]
              exact hplace
          · rw [List.append_assoc, List.singleton_append, List.map_append, List.append_assoc]
            rcases hends with ⟨told, ending, hout, hpending, htells, hruns⟩ | ⟨i₁, whole₁, hout, hstands, hgoes⟩
            · exact .inl ⟨told, ending, hout, hpending, htells, .next hwhole hsame hruns⟩
            · refine .inr ⟨i₁, whole₁, hout, hstands, ?_⟩
              intro ending final j'
              rw [hgoes, runs_next_iff hwhole hsame]

private theorem evalData_mono (hle : fuel ≤ fuel')
    {finished : List (Except EvalError Value) × String × Interpreter}
    (h : evalData fuel i r reversed = some finished) :
    evalData fuel' i r reversed = some finished := by
  induction fuel generalizing i r reversed fuel' with
  | zero => simp [evalData] at h
  | succ fuel ih =>
    obtain ⟨fuel', rfl⟩ := Nat.exists_eq_add_of_le' (Nat.le_trans (Nat.succ_pos fuel) hle)
    have hle := Nat.le_of_succ_le_succ hle
    rw [evalData] at h ⊢
    rcases hread : i.readValue r with ⟨outcome, after, i'⟩
    rw [hread] at h
    match outcome with
    | .ok none => exact h
    | .error e => exact h
    | .ok (some expr) =>
      dsimp only at h ⊢
      cases heval : i'.evaluate fuel ⟨valuesOf reversed, []⟩ expr i'.global with
      | none => simp [heval] at h
      | some answer =>
        rw [heval] at h
        rw [Interpreter.evaluate_mono hle heval]
        obtain ⟨result, i''⟩ := answer
        cases result with
        | ok v => exact ih hle h
        | error e => exact h

private theorem evalData_short
    (hread : ¬ ∃ expr after i', i.readValue r = (.ok (some expr), after, i')) :
    ∃ fuel finished, evalData fuel i r reversed = some finished := by
  rcases heq : i.readValue r with ⟨outcome, after, i'⟩
  refine ⟨1, ?_⟩
  simp only [evalData, heq]
  match outcome with
  | .ok none => exact ⟨_, rfl⟩
  | .ok (some expr) => exact absurd ⟨expr, after, i', heq⟩ hread
  | .error e =>
    dsimp only
    split <;> exact ⟨_, rfl⟩

theorem Runs.evalData (hruns : Runs (sameLine all) i whole done ending final j)
    (h : OnLine all lines size i r whole done reversed) :
    ∃ fuel finished, Session.evalData fuel i r reversed = some finished := by
  induction hruns generalizing r reversed with
  | finished hwhole =>
    apply evalData_short
    rintro ⟨expr, after, i', hread⟩
    obtain ⟨whole', hwhole', -⟩ := h.datum hread
    simp [hwhole] at hwhole'
  | unreadable hwhole =>
    apply evalData_short
    rintro ⟨expr, after, i', hread⟩
    obtain ⟨whole', hwhole', -⟩ := h.datum hread
    simp [hwhole] at hwhole'
  | @failed i i' j whole whole' done expr fuel e hwhole heval =>
    by_cases hread : ∃ expr after i', i.readValue r = (.ok (some expr), after, i')
    · obtain ⟨expr', after, i₁, hread⟩ := hread
      obtain ⟨whole'', hwhole', hheld, -⟩ := h.datum hread
      obtain ⟨rfl, rfl, rfl⟩ : _ ∧ _ ∧ _ := by simpa [hwhole] using hwhole'
      rw [hheld] at heval
      refine ⟨fuel + 1, (.error e :: reversed, "", j), ?_⟩
      simp only [Session.evalData, hread, heval]
    · exact evalData_short hread
  | @next i i' i'' j whole whole' done final expr v fuel ending hwhole heval _ ih =>
    by_cases hread : ∃ expr after i', i.readValue r = (.ok (some expr), after, i')
    · obtain ⟨expr', after, i₁, hread⟩ := hread
      obtain ⟨whole'', hwhole', hheld, -, hnext⟩ := h.datum hread
      obtain ⟨rfl, rfl, rfl⟩ : _ ∧ _ ∧ _ := by simpa [hwhole] using hwhole'
      obtain ⟨fuel', finished, hrest⟩ := ih (hnext heval)
      rw [hheld] at heval
      refine ⟨max fuel fuel' + 1, finished, ?_⟩
      simp only [Session.evalData, hread,
        Interpreter.evaluate_mono (Nat.le_max_left fuel fuel') heval]
      exact evalData_mono (Nat.le_max_right fuel fuel') hrest
    · exact evalData_short hread

end OnLine

theorem Stands.onLine (h : Stands s (line :: lines) i whole) (before : List String)
    (hdone : ∀ p ∈ done, lines.length < linesBehind (before ++ line :: lines) p.1) :
    OnLine (before ++ line :: lines) lines (line.toList.length + 1) i
      (Reader.ofString (s.pending ++ line ++ "\n")) whole done [] := by
  refine ⟨⟨h.ready, Reader.ready_ofString _ h.ready.inOrder, ?_, ?_⟩, ?_, h.waits.remaining_lt, ?_⟩
  · rw [Reader.upcoming_ofString, String.toList_append]
    exact Text.lined_concat _
  · rw [h.text, toList_wholeText, Reader.upcoming_ofString]
    simp [String.toList_append]
  · intro left hle hlt
    apply linesBehind_eq before line hle
    rw [toList_wholeText, List.length_append, List.length_cons]
    omega
  · have hnone : done.filter (fun p => linesBehind (before ++ line :: lines) p.1 == lines.length) =
        [] := by
      rw [List.filter_eq_nil_iff]
      intro p hp
      have hlt := hdone p hp
      simp only [beq_iff_eq]
      omega
    rw [hnone]
    rfl

section FeedAll

variable {before : List String} {out reversed : List (Except EvalError Value)} {pending : String}
  {feed : Feed}

theorem feed_eq_some (h : s.feed fuel line = some (feed, s')) :
    evalData fuel s.interpreter (Reader.ofString (s.pending ++ line ++ "\n")) [] =
      some (feed.results.reverse, s'.pending, s'.interpreter) := by
  simp only [Session.feed] at h
  split at h
  · next reversed pending j heval =>
    rw [heval]
    split at h
    · next hnone =>
      obtain ⟨rfl, rfl⟩ : _ ∧ _ := by simpa using h
      simp_all [Feed.results]
    · obtain ⟨rfl, rfl⟩ : _ ∧ _ := by simpa using h
      simp [Feed.results]
  · simp at h

private theorem feed_of_evalData
    (h : evalData fuel s.interpreter (Reader.ofString (s.pending ++ line ++ "\n")) [] =
      some (reversed, pending, j)) :
    ∃ feed, s.feed fuel line = some (feed, ⟨j, pending⟩) ∧ feed.results = reversed.reverse := by
  simp only [Session.feed, h]
  split
  · next hnone =>
    refine ⟨.needMore, rfl, ?_⟩
    simp_all [Feed.results]
  · exact ⟨.evaluated reversed.reverse, rfl, rfl⟩

private theorem feed_mono (hle : fuel ≤ fuel') (h : s.feed fuel line = some (feed, s')) :
    s.feed fuel' line = some (feed, s') := by
  have heval : evalData fuel' s.interpreter (Reader.ofString (s.pending ++ line ++ "\n")) [] =
    evalData fuel s.interpreter (Reader.ofString (s.pending ++ line ++ "\n")) [] := by
    rw [evalData_mono hle (feed_eq_some h), feed_eq_some h]
  rw [← h]
  simp only [Session.feed, heval]

private theorem feedAll_mono (hle : fuel ≤ fuel')
    {finished : List (Except EvalError Value) × Session}
    (h : feedAll fuel s lines = some finished) : feedAll fuel' s lines = some finished := by
  induction lines generalizing s finished with
  | nil => exact h
  | cons line lines ih =>
    rw [feedAll] at h ⊢
    cases hfeed : s.feed fuel line with
    | none => simp [hfeed] at h
    | some fed =>
      obtain ⟨feed, s₁⟩ := fed
      rw [hfeed] at h
      rw [feed_mono hle hfeed]
      dsimp only at h ⊢
      split at h
      · next hok =>
        rw [if_pos hok]
        cases hrest : feedAll fuel s₁ lines with
        | none => simp [hrest] at h
        | some rest =>
          rw [hrest] at h
          rw [ih hrest]
          exact h
      · next hok => rw [if_neg hok, h]

private theorem results_append (new new' : Done) :
    results (new' ++ new) = results new ++ results new' := by
  simp [results]

private theorem Reports.append {new' : Done} (h : Reports new' ending out s) (new : Done) :
    Reports (new' ++ new) ending (results new ++ out) s := by
  cases h with
  | finished i =>
    rw [← results_append]
    exact .finished i
  | incomplete e i pending hearly hsome =>
    rw [← results_append]
    exact .incomplete e i pending hearly hsome
  | unreadable e e' i hlate hsame =>
    rw [← List.append_assoc, ← results_append]
    exact .unreadable e e' i hlate hsame
  | failed e i =>
    rw [← List.append_assoc, ← results_append]
    exact .failed e i

private theorem Ending.Tells.reports {told : EvalError} (h : ending.Tells told) (new : Done)
    (i : Interpreter) : Reports new ending (results new ++ [.error told]) ⟨i, ""⟩ := by
  cases ending with
  | finished => exact absurd h id
  | unreadable e =>
    obtain ⟨hlate, e', hsame, rfl⟩ := h
    exact .unreadable e e' i hlate hsame
  | failed e =>
    obtain rfl : told = e := h
    exact .failed told i

private theorem results_of_reverse (h : out.reverse = new.map (fun p => .ok p.2) ++ []) :
    out = results new := by
  rw [List.append_nil, List.reverse_eq_iff] at h
  exact h

private theorem results_of_reverse_error {told : EvalError}
    (h : out.reverse = .error told :: (new.map (fun p => .ok p.2) ++ [])) :
    out = results new ++ [.error told] := by
  rw [List.append_nil, List.reverse_eq_iff, List.reverse_cons] at h
  exact h

private theorem all_isOk (new : Done) : (results new).all (·.isOk) = true := by
  simp [results, Except.isOk, Except.toBool]

private theorem not_all_isOk (new : Done) (told : EvalError) :
    ¬ (results new ++ [Except.error told]).all (·.isOk) = true := by
  simp [Except.isOk, Except.toBool]

private theorem done_bound (hnew : ∀ p ∈ new, linesBehind all p.1 = lines.length)
    (hdone : ∀ p ∈ done, lines.length < linesBehind all p.1) :
    ∀ p ∈ new ++ done, lines.length ≤ linesBehind all p.1 := by
  intro p hp
  rcases List.mem_append.mp hp with hp | hp
  · exact Nat.le_of_eq (hnew p hp).symm
  · exact Nat.le_of_lt (hdone p hp)

theorem Stands.runs_end (h : Stands s [] i whole) (hold : Done → Nat → List Value) (done : Done) :
    ∃ ending, Runs hold i whole done ending done s.interpreter ∧ Reports [] ending [] s := by
  obtain ⟨hwaits, hready, htext⟩ := h
  cases hwaits with
  | ready i =>
    have hend : whole.skipBlanks.cursor.upcoming = [] := by
      rw [Reader.upcoming_skipBlanks_eq, htext]
      rfl
    have hread : i.readValue whole = (.ok none, whole.skipBlanks, i) := by
      rw [Interpreter.readValue_of_read (Reader.read_at_end hend i.symbols)]
      rfl
    exact ⟨.finished, .finished hread, .finished i⟩
  | pending i text hlined hincomplete =>
    have hne : text ≠ "" := by
      rintro rfl
      exact Reader.ne_nil_of_incomplete hincomplete rfl
    have hparse := Reader.parse_congr hready (Reader.ready_ofString text hready.inOrder) (by
      rw [htext, Reader.upcoming_ofString]
      simp [wholeText])
    rcases hwhole : whole.read i.symbols with ⟨outcome, whole', symbols⟩
    rcases hfresh : (Reader.ofString text).read i.symbols with ⟨outcome', fresh, symbols'⟩
    rw [hfresh] at hincomplete
    rw [hwhole, hfresh] at hparse
    obtain ⟨houtcome, -, hsymbols⟩ := Grammar.Parse.mk.inj hparse
    cases outcome' with
    | ok found => exact absurd hincomplete id
    | error e' =>
      cases outcome with
      | ok found => simp [Except.mapError] at houtcome
      | error e =>
        have hkind : e.kind = e'.kind := by simpa [Except.mapError] using houtcome
        have hearly : e.isIncomplete = true := by
          rw [← ReadError.kind_eq_unexpectedEnd, hkind]
          exact ReadError.kind_eq_unexpectedEnd.mpr hincomplete
        have hread : i.readValue whole = (.error e, whole', i.withSymbols symbols') := by
          rw [Interpreter.readValue_of_read hwhole, show symbols' = symbols from hsymbols.symm]
          rfl
        exact ⟨.unreadable e, .unreadable hread, .incomplete e _ text hearly hne⟩

/-- What feeding lines comes to is what the run of their whole text comes to. -/
theorem feedAll_runs (h : Stands s lines i whole)
    (hdone : ∀ p ∈ done, lines.length ≤ linesBehind (before ++ lines) p.1)
    (hfeed : feedAll fuel s lines = some (out, s')) :
    ∃ ending new, Runs (sameLine (before ++ lines)) i whole done ending (new ++ done)
      s'.interpreter ∧ Reports new ending out s' := by
  induction lines generalizing s i whole done before out with
  | nil =>
    obtain ⟨rfl, rfl⟩ : _ ∧ _ := by simpa [feedAll] using hfeed
    obtain ⟨ending, hruns, hreports⟩ := h.runs_end (sameLine (before ++ [])) done
    exact ⟨ending, [], hruns, hreports⟩
  | cons line lines ih =>
    rw [feedAll] at hfeed
    cases hfirst : s.feed fuel line with
    | none => simp [hfirst] at hfeed
    | some fed =>
      obtain ⟨feed, s₁⟩ := fed
      rw [hfirst] at hfeed
      have heval := feed_eq_some hfirst
      rw [h.waits.evalData h.ready.inOrder] at heval
      obtain ⟨new, hnew, hends⟩ := evalData_runs (h.onLine before hdone) heval
      dsimp only at hfeed
      rcases hends with ⟨told, ending, hout, hpending, htells, hruns⟩ |
        ⟨i₁, whole₁, hout, hstands, hgoes⟩
      · have hresults := results_of_reverse_error hout
        rw [hresults, if_neg (not_all_isOk new told)] at hfeed
        obtain ⟨rfl, rfl⟩ : _ ∧ _ := by simpa using hfeed
        obtain ⟨j, pending⟩ := s₁
        obtain rfl : pending = "" := hpending
        exact ⟨ending, new, hruns, htells.reports new j⟩
      · have hresults := results_of_reverse hout
        rw [hresults, if_pos (all_isOk new)] at hfeed
        cases hrest : feedAll fuel s₁ lines with
        | none => simp [hrest] at hfeed
        | some rest =>
          obtain ⟨others, s₂⟩ := rest
          obtain ⟨rfl, rfl⟩ : _ ∧ _ := by simpa [hrest] using hfeed
          have hall : before ++ line :: lines = (before ++ [line]) ++ lines := by simp
          rw [hall] at hnew hgoes hdone ⊢
          obtain ⟨ending, new', hruns, hreports⟩ := ih hstands (done_bound hnew hdone) hrest
          refine ⟨ending, new' ++ new, ?_, hreports.append new⟩
          rw [List.append_assoc new']
          exact (hgoes ending _ _).mp hruns

theorem Runs.feedAll (before : List String)
    (hruns : Runs (sameLine (before ++ lines)) i whole done ending final j)
    (h : Stands s lines i whole)
    (hdone : ∀ p ∈ done, lines.length ≤ linesBehind (before ++ lines) p.1) :
    ∃ fuel out s', Session.feedAll fuel s lines = some (out, s') := by
  induction lines generalizing s i whole done before with
  | nil => exact ⟨0, [], s, rfl⟩
  | cons line lines ih =>
    have honLine := h.onLine before hdone
    obtain ⟨fuel, ⟨reversed, pending, j₁⟩, heval⟩ := hruns.evalData honLine
    obtain ⟨new, hnew, hends⟩ := evalData_runs honLine heval
    rw [← h.waits.evalData h.ready.inOrder] at heval
    obtain ⟨feed, hfeed, hresults⟩ := feed_of_evalData heval
    rcases hends with ⟨told, ending, hout, -, -, -⟩ | ⟨i₁, whole₁, hout, hstands, hgoes⟩
    · rw [hout, ← List.reverse_eq_iff] at hresults
      refine ⟨fuel, feed.results, ⟨j₁, pending⟩, ?_⟩
      rw [Session.feedAll, hfeed]
      dsimp only
      rw [results_of_reverse_error hresults, if_neg (not_all_isOk new told)]
    · rw [hout, ← List.reverse_eq_iff] at hresults
      have hall : before ++ line :: lines = (before ++ [line]) ++ lines := by simp
      rw [hall] at hnew hgoes hdone hruns
      obtain ⟨fuel', out, s', hrest⟩ :=
        ih _ ((hgoes ending final j).mpr hruns) hstands (done_bound hnew hdone)
      refine ⟨max fuel fuel', feed.results ++ out, s', ?_⟩
      rw [Session.feedAll, feed_mono (Nat.le_max_left fuel fuel') hfeed]
      dsimp only
      rw [results_of_reverse hresults, if_pos (all_isOk new),
        feedAll_mono (Nat.le_max_right fuel fuel') hrest]

end FeedAll

theorem stands_ofInterpreter (h : i.symbols.InOrder) (lines : List String) :
    Stands (ofInterpreter i) lines i (Reader.ofString (wholeText lines)) :=
  ⟨.ready i, Reader.ready_ofString _ h, rfl⟩

/-- A session that is fed the lines one by one comes to what `evalSource` makes of their text: the
same data run in the same order, each of them once, with the same values, up to the first error, and
leave the same interpreter; or neither comes to an end. -/
structure RunsAsSource (i : Interpreter) (lines : List String) : Prop where
  of_session : ∀ {fuel : Nat} {results : List (Except EvalError Value)} {s : Session},
    feedAll fuel (ofInterpreter i) lines = some (results, s) →
    ∃ fuel' ending done,
      Runs newest i (Reader.ofString (wholeText lines)) [] ending done s.interpreter ∧
      Reports done ending results s ∧
      i.evalSource fuel' (wholeText lines) = some (ending.result done, s.interpreter)
  of_source : ∀ {fuel : Nat} {result : Except EvalError Value} {j : Interpreter},
    i.evalSource fuel (wholeText lines) = some (result, j) →
    ∃ fuel' results s, feedAll fuel' (ofInterpreter i) lines = some (results, s) ∧
      s.interpreter = j

theorem feedAll_runs_text (h : i.symbols.InOrder) {results : List (Except EvalError Value)}
    (hfeed : feedAll fuel (ofInterpreter i) lines = some (results, s)) :
    ∃ ending done, Runs (sameLine lines) i (Reader.ofString (wholeText lines)) [] ending done
      s.interpreter ∧ Reports done ending results s := by
  have hdone : ∀ p ∈ ([] : Done), lines.length ≤ linesBehind ([] ++ lines) p.1 := by simp
  obtain ⟨ending, new, hruns, hreports⟩ :=
    feedAll_runs (stands_ofInterpreter h lines) hdone hfeed
  rw [List.append_nil] at hruns
  exact ⟨ending, new, hruns, hreports⟩

private theorem Runs.feedAll_text (h : i.symbols.InOrder)
    (hruns : Runs (sameLine lines) i (Reader.ofString (wholeText lines)) [] ending done j) :
    ∃ fuel results s, Session.feedAll fuel (ofInterpreter i) lines = some (results, s) ∧
      s.interpreter = j ∧ Reports done ending results s := by
  obtain ⟨fuel, results, s, hfeed⟩ :=
    Runs.feedAll [] hruns (stands_ofInterpreter h lines) (by simp)
  obtain ⟨ending', done', hruns', hreports⟩ := feedAll_runs_text h hfeed
  obtain ⟨rfl, rfl, rfl⟩ := hruns.unique hruns'
  exact ⟨fuel, results, s, hfeed, rfl, hreports⟩

/-- Unless the run that holds on to the values of the same line and the one that holds on to the value
before part, the session runs as the source. -/
theorem runsAsSource (h : i.symbols.InOrder)
    (hpart : ¬ Parting (sameLine lines) newest i (Reader.ofString (wholeText lines)) []) :
    RunsAsSource i lines where
  of_session hfeed := by
    obtain ⟨ending, done, hruns, hreports⟩ := feedAll_runs_text h hfeed
    have hsource := (runs_iff_of_not_parting hpart).mp hruns
    obtain ⟨fuel', heval⟩ := (evalSource_iff_runs i _ _ _).mpr ⟨ending, done, hsource, rfl⟩
    exact ⟨fuel', ending, done, hsource, hreports, heval⟩
  of_source heval := by
    obtain ⟨ending, done, hruns, rfl⟩ := (evalSource_iff_runs i _ _ _).mp ⟨_, heval⟩
    obtain ⟨fuel', results, s, hfeed, hj, -⟩ :=
      ((runs_iff_of_not_parting hpart).mpr hruns).feedAll_text h
    exact ⟨fuel', results, s, hfeed, hj⟩

/-- A session that is fed lines runs their text as a whole, and the values of the data that the same
line has completed are held meanwhile. A source is run just so, but with nothing held but the value
before. The two come to the same, the same data in the same order, each of them once, with the same
values and the same final interpreter, up to the first error, which is the same one but for the lines
that read errors name; or the first thing in which they differ is whether somebody else holds a
closure that a definition is to name. Text is pending if the whole text ends too early. -/
theorem session_runs_whole_text {names : List String} (h : i.symbols.Represents names)
    (lines : List String) :
    (∀ fuel results s, feedAll fuel (ofInterpreter i) lines = some (results, s) →
      ∃ ending done, Runs (sameLine lines) i (Reader.ofString (wholeText lines)) [] ending done
        s.interpreter ∧ Reports done ending results s) ∧
    (∀ ending done j,
      Runs (sameLine lines) i (Reader.ofString (wholeText lines)) [] ending done j →
      ∃ fuel results s, feedAll fuel (ofInterpreter i) lines = some (results, s) ∧
        s.interpreter = j ∧ Reports done ending results s) ∧
    (∀ result j, (∃ fuel, i.evalSource fuel (wholeText lines) = some (result, j)) ↔
      ∃ ending done, Runs newest i (Reader.ofString (wholeText lines)) [] ending done j ∧
        result = ending.result done) ∧
    (RunsAsSource i lines ∨
      Parting (sameLine lines) newest i (Reader.ofString (wholeText lines)) []) := by
  have horder : i.symbols.InOrder := ⟨names, h⟩
  refine ⟨?_, ?_, ?_, ?_⟩
  · exact fun _ _ _ hfeed => feedAll_runs_text horder hfeed
  · exact fun _ _ _ hruns => hruns.feedAll_text horder
  · exact fun result j => evalSource_iff_runs i (wholeText lines) result j
  · by_cases hpart : Parting (sameLine lines) newest i (Reader.ofString (wholeText lines)) []
    · exact .inr hpart
    · exact .inl (runsAsSource horder hpart)

def heldSymbols : SymbolTable :=
  ["define", "let", "set!", "f"].foldl (fun t name => (t.intern name).2)
    (SymbolTable.withCapacity 15 none (fun _ => 0))

/-- An interpreter where nothing but the variable `f` holds a procedure without a name. -/
def heldClosure : Interpreter where
  machine :=
    { store :=
        { cells := #[]
          frames := #[⟨[(⟨0, "define"⟩, .form ⟨0, "define"⟩), (⟨1, "let"⟩, .form ⟨1, "let"⟩),
            (⟨2, "set!"⟩, .form ⟨2, "set!"⟩), (⟨3, "f"⟩, .closure ⟨0⟩)], none⟩]
          closures := #[⟨none, .fixed [], [.int 1], ⟨0⟩⟩] }
      symbols := heldSymbols
      calls := CallStack.empty
      depth := 0
      counters := none
      output := .silent }
  library := { forms := #[Forms.define, Forms.letForm, Forms.assign] }
  maxDepth := none
  global := ⟨0⟩

theorem inOrder_heldSymbols : heldSymbols.InOrder := by
  have hempty := SymbolTable.inOrder_withCapacity 15 none (fun _ => 0)
  have hdefine := (hempty.grows_intern "define").1.inOrder
  have hlet := (hdefine.grows_intern "let").1.inOrder
  have hset := (hlet.grows_intern "set!").1.inOrder
  exact (hset.grows_intern "f").1.inOrder

/-- A datum over two lines, behind one that the first line completes. Nobody is asked who holds the
closure that `f` is bound to, so the source leaves the same interpreter. -/
theorem split_datum_runs :
    ∃ names, heldClosure.symbols.Represents names ∧
      ∃ results s fuel ending done,
        feedAll 60 (ofInterpreter heldClosure) ["f (set! f", "0) f"] = some (results, s) ∧
        results.length = 3 ∧ Reports done ending results s ∧
        heldClosure.evalSource fuel (wholeText ["f (set! f", "0) f"]) =
          some (ending.result done, s.interpreter) := by
  obtain ⟨names, hnames⟩ := inOrder_heldSymbols
  have hlength : (feedAll 60 (ofInterpreter heldClosure) ["f (set! f", "0) f"]).map
      (fun x => x.1.length) = some 3 := by decide +kernel
  obtain ⟨⟨results, s⟩, hfeed, hresults⟩ := Option.map_eq_some_iff.mp hlength
  have hquiet : runsQuietly newest 60 heldClosure
      (Reader.ofString (wholeText ["f (set! f", "0) f"])) [] = true := by decide +kernel
  have hsame : RunsAsSource heldClosure ["f (set! f", "0) f"] :=
    (session_runs_whole_text (i := heldClosure) hnames ["f (set! f", "0) f"]).2.2.2.resolve_right
      fun hpart => not_parting_of_runsQuietly hquiet hpart.symm
  obtain ⟨fuel, ending, done, -, hreports, heval⟩ := hsame.of_session hfeed
  exact ⟨names, hnames, results, s, fuel, ending, done, hfeed, hresults, hreports, heval⟩

/-- The procedure is given a name where the whole text is evaluated, since nothing else holds it any
more. The session still holds it as the first result of the line, and the name is not given. -/
theorem session_differs_from_source :
    ¬ ∀ (i : Interpreter) (lines : List String) (fuel : Nat)
        (results : List (Except EvalError Value)) (s : Session) (result : Except EvalError Value)
        (j : Interpreter), i.symbols.InOrder →
      feedAll fuel (ofInterpreter i) lines = some (results, s) →
      i.evalSource fuel (wholeText lines) = some (result, j) →
      s.interpreter.machine.store.closures = j.machine.store.closures := by
  intro hsame
  have hfed : (feedAll 100 (ofInterpreter heldClosure)
      ["f 0 (define q (let ((g f)) (set! f 0) g))"]).map
        (fun x => x.2.interpreter.machine.store.closures[0]?.bind (·.name)) = some none := by
    decide +kernel
  have hevaluated : (heldClosure.evalSource 100
      (wholeText ["f 0 (define q (let ((g f)) (set! f 0) g))"])).map
        (fun x => x.2.machine.store.closures[0]?.bind (·.name)) = some (some "q") := by
    decide +kernel
  obtain ⟨⟨results, s⟩, hfeed, hnone⟩ := Option.map_eq_some_iff.mp hfed
  obtain ⟨⟨result, j⟩, hsource, hname⟩ := Option.map_eq_some_iff.mp hevaluated
  have hclosures := hsame heldClosure _ 100 results s result j inOrder_heldSymbols hfeed hsource
  have hnames : some "q" = none := by
    rw [← hname, ← hnone]
    exact congrArg (fun cs : Array Closure => cs[0]?.bind (·.name)) hclosures.symm
  simp at hnames

end Session
end MiniScheme
