import MiniScheme.Proofs.Session.Lines
/-! # Pending text

Whatever lines a session has been fed, the text that is pending is the end of what was fed and begins
with a datum that it does not complete: reading it once more from its start fails at its end. Nothing
else is ever pending, and nothing at all behind an error.
-/
namespace MiniScheme

open Text (Cursor)

theorem Reader.suffix_read (r : Reader) (symbols : SymbolTable) :
    (r.read symbols).reader.cursor.upcoming <:+ r.cursor.upcoming :=
  keeps_read (P := fun c => c.upcoming <:+ r.cursor.upcoming)
    (fun c hc => by rw [Cursor.upcoming_next]; exact (List.drop_suffix _ _).trans hc)
    (List.suffix_refl _) symbols

namespace Interpreter

variable {i j : Interpreter} {r after : Reader} {outcome : Except ReadError (Option Value)}

private theorem suffix_of_readValue (hread : i.readValue r = (outcome, after, j)) :
    after.cursor.upcoming <:+ r.cursor.upcoming := by
  rw [readValue_eq] at hread
  obtain ⟨-, rfl, -⟩ := by simpa only [Prod.mk.injEq] using hread
  exact Reader.suffix_read r i.symbols

end Interpreter

namespace Session

variable {i j : Interpreter} {s s' : Session} {r : Reader} {line pending : String} {feed : Feed}
  {fuel : Nat} {reversed out : List (Except EvalError Value)} {done final : Done} {ending : Ending}
  {hold : Done → Nat → List Value}

/-- What an interpreter's session can be after any number of lines and resets. -/
inductive Reached (i : Interpreter) : Session → Prop
  | start : Reached i (ofInterpreter i)
  | fed {s s' : Session} {fuel : Nat} {line : String} {feed : Feed} (before : Reached i s)
    (fed : s.feed fuel line = some (feed, s')) : Reached i s'
  | reset {s : Session} (before : Reached i s) : Reached i s.reset

private theorem Runs.inOrder (h : Runs hold i r done ending final j)
    (hsymbols : i.symbols.InOrder) :
    j.symbols.InOrder := by
  induction h with
  | finished hread => exact (Interpreter.grows_readValue hsymbols hread).inOrder
  | unreadable hread => exact (Interpreter.grows_readValue hsymbols hread).inOrder
  | failed hread heval =>
    have hgrows := Interpreter.grows_readValue hsymbols hread
    exact (Interpreter.grows_evaluate hgrows.inOrder heval).inOrder
  | next hread heval _ ih =>
    have hgrows := Interpreter.grows_readValue hsymbols hread
    exact ih (Interpreter.grows_evaluate hgrows.inOrder heval).inOrder

theorem suffix_of_evalData (h : evalData fuel i r reversed = some (out, pending, j)) :
    pending.toList <:+ r.cursor.upcoming := by
  induction fuel generalizing i r reversed with
  | zero => simp [evalData] at h
  | succ fuel ih =>
    rw [evalData] at h
    rcases hread : i.readValue r with ⟨outcome, after, i'⟩
    rw [hread] at h
    cases outcome with
    | error e =>
      cases hearly : e.isIncomplete with
      | true =>
        obtain ⟨-, rfl, -⟩ : _ ∧ _ ∧ _ := by simpa [hearly] using h
        simp [unread]
      | false =>
        obtain ⟨-, rfl, -⟩ : _ ∧ _ ∧ _ := by simpa [hearly] using h
        exact List.nil_suffix
    | ok datum? =>
      cases datum? with
      | none =>
        obtain ⟨-, rfl, -⟩ : _ ∧ _ ∧ _ := by simpa using h
        exact List.nil_suffix
      | some datum =>
        have hbehind := Interpreter.suffix_of_readValue hread
        dsimp only at h
        cases heval : i'.evaluate fuel ⟨valuesOf reversed, []⟩ datum i'.global with
        | none => simp [heval] at h
        | some answer =>
          rw [heval] at h
          obtain ⟨answer, i''⟩ := answer
          cases answer with
          | ok v => exact (ih h).trans hbehind
          | error e =>
            obtain ⟨-, rfl, -⟩ : _ ∧ _ ∧ _ := by simpa using h
            exact List.nil_suffix

private theorem exists_before_pending (h : s.feed fuel line = some (feed, s')) :
    ∃ before, s.pending ++ line ++ "\n" = before ++ s'.pending := by
  obtain ⟨before, hbefore⟩ := suffix_of_evalData (feed_eq_some h)
  rw [Reader.upcoming_ofString] at hbefore
  refine ⟨String.ofList before, ?_⟩
  rw [← String.toList_inj, ← hbefore, String.toList_append, String.toList_ofList]

theorem feed_pending (fuel : Nat) (s : Session) (line : String) :
    s.feed fuel line = (ofInterpreter s.interpreter).feed fuel (s.pending ++ line) := by
  simp only [Session.feed, ofInterpreter, String.empty_append]

/-- What a line comes to is what the run of its text comes to, the pending text ahead. -/
theorem feed_runs (hsymbols : s.interpreter.symbols.InOrder)
    (h : s.feed fuel line = some (feed, s')) :
    ∃ ending done, Runs (sameLine [s.pending ++ line]) s.interpreter
      (Reader.ofString (s.pending ++ line ++ "\n")) [] ending done s'.interpreter ∧
      Reports done ending feed.results s' := by
  rw [feed_pending] at h
  have hall : feedAll fuel (ofInterpreter s.interpreter) [s.pending ++ line] =
      some (feed.results, s') := by
    rw [feedAll, h]
    simp [feedAll]
  have hstands := stands_ofInterpreter hsymbols [s.pending ++ line]
  have hdone : ∀ p ∈ ([] : Done),
      [s.pending ++ line].length ≤ linesBehind ([] ++ [s.pending ++ line]) p.1 := by simp
  obtain ⟨ending, done, hruns, hreports⟩ := feedAll_runs hstands hdone hall
  have htext : wholeText [s.pending ++ line] = s.pending ++ line ++ "\n" := by simp [wholeText]
  rw [List.append_nil, htext] at hruns
  exact ⟨ending, done, hruns, hreports⟩

theorem Waits.unreadable (h : Waits s i) (hsymbols : i.symbols.InOrder) :
    s.pending = "" ∨ Incomplete ((Reader.ofString s.pending).read s.interpreter.symbols).outcome := by
  cases h with
  | ready i => exact .inl rfl
  | pending i text hlined hincomplete =>
    have hagain := Reader.read_again (r := Reader.ofString text) hsymbols hlined hincomplete []
    rw [Reader.extend_nil] at hagain
    right
    show Incomplete ((Reader.ofString text).read
      ((Reader.ofString text).read i.symbols).symbols).outcome
    rwa [hagain]

theorem feed_waits (hsymbols : s.interpreter.symbols.InOrder)
    (h : s.feed fuel line = some (feed, s')) : ∃ i, Waits s' i ∧ i.symbols.InOrder := by
  obtain ⟨ending, done, hruns, -⟩ := feed_runs hsymbols h
  rw [feed_pending] at h
  have honLine := (stands_ofInterpreter hsymbols [s.pending ++ line]).onLine [] (fun p hp =>
    absurd hp (List.not_mem_nil : p ∉ ([] : Done)))
  obtain ⟨new, -, ⟨told, -, -, hpending, -⟩ | ⟨i, whole, -, hstands', -⟩⟩ :=
    evalData_runs honLine (feed_eq_some h)
  · obtain ⟨j, pending⟩ := s'
    obtain rfl : pending = "" := hpending
    exact ⟨j, .ready j, hruns.inOrder hsymbols⟩
  · exact ⟨i, hstands'.waits, hstands'.ready.inOrder⟩

private theorem Reached.inOrder (h : Reached i s) (hsymbols : i.symbols.InOrder) :
    s.interpreter.symbols.InOrder := by
  induction h with
  | start => exact hsymbols
  | fed _ hfed ih =>
    obtain ⟨ending, done, hruns, -⟩ := feed_runs ih hfed
    exact hruns.inOrder ih
  | reset _ ih => exact ih

/-- However a session was reached, its pending text breaks off inside its first datum. -/
theorem Reached.breaksOff (h : Reached i s) (hsymbols : i.symbols.InOrder) :
    s.pending = "" ∨ Incomplete ((Reader.ofString s.pending).read s.interpreter.symbols).outcome := by
  cases h with
  | start => exact .inl rfl
  | fed before hfed =>
    obtain ⟨j, hwaits, hj⟩ := feed_waits (before.inOrder hsymbols) hfed
    exact hwaits.unreadable hj
  | reset _ => exact .inl rfl

private theorem feed_needMore_iff (h : s.feed fuel line = some (feed, s')) :
    feed = .needMore ↔ feed.results = [] ∧ s'.pending ≠ "" := by
  simp only [Session.feed] at h
  split at h
  · next reversed pending j heval =>
    split at h
    · next hnone =>
      obtain ⟨rfl, rfl⟩ : _ ∧ _ := by simpa using h
      simp_all [Feed.results]
    · next hsome =>
      obtain ⟨rfl, rfl⟩ : _ ∧ _ := by simpa using h
      simp_all [Feed.results]
  · simp at h

theorem Reports.error_is_last (h : Reports done ending out s) {k : Nat} {e : EvalError}
    (herror : out[k]? = some (.error e)) : k + 1 = out.length ∧ s.pending = "" := by
  have hvalue : (results done)[k]? ≠ some (.error e) := by
    intro hk
    obtain ⟨p, -, hp⟩ := List.mem_map.mp (List.mem_reverse.mp (List.mem_of_getElem? hk))
    cases hp
  have hlast (told : Except EvalError Value)
      (hk : (results done ++ [told])[k]? = some (.error e)) :
      k + 1 = (results done ++ [told]).length := by
    rw [List.getElem?_append] at hk
    split at hk
    · exact absurd hk hvalue
    · have hbound := (List.getElem?_eq_some_iff.mp hk).1
      simp only [List.length_append, List.length_singleton] at hbound ⊢
      omega
  cases h with
  | finished i => exact absurd herror hvalue
  | incomplete e' i pending hearly hsome => exact absurd herror hvalue
  | unreadable e' e'' i hlate hsame => exact ⟨hlast _ herror, rfl⟩
  | failed e' i => exact ⟨hlast _ herror, rfl⟩

theorem Reports.results_eq_nil_iff (h : Reports done ending out s) :
    out = [] ↔ done = [] ∧ ∀ told, ¬ ending.Tells told := by
  cases h with
  | finished i => simp [results, Ending.Tells]
  | incomplete e i pending hearly hsome => simp [results, Ending.Tells, hearly]
  | unreadable e e' i hlate hsame =>
    have htells : Ending.Tells (.unreadable e) e'.toEvalError := ⟨hlate, e', hsame, rfl⟩
    simp only [List.append_eq_nil_iff, List.cons_ne_nil, and_false, false_iff, not_and]
    exact fun _ hnone => hnone _ htells
  | failed e i =>
    simp only [List.append_eq_nil_iff, List.cons_ne_nil, and_false, false_iff, not_and]
    exact fun _ hnone => hnone e rfl

/-- However a session was reached, either no text is pending or the text breaks off inside its first
datum, read by a new reader over the same table. Each line is read behind what was pending before, and
what is pending then is the end of both. An error is the last result of its line and leaves nothing
pending, as a reset does. More is needed exactly if the run of the text has evaluated nothing and met
no error, and some text is pending. -/
theorem pending_text_breaks_off_in_a_datum {names : List String} (h : i.symbols.Represents names)
    (hs : Reached i s) :
    (s.pending = "" ∨ ∃ inside line,
      ((Reader.ofString s.pending).read s.interpreter.symbols).outcome =
        .error (.unexpectedEnd inside line)) ∧
    s.reset.pending = "" ∧
    ∀ fuel line feed s', s.feed fuel line = some (feed, s') →
      (∃ before, s.pending ++ line ++ "\n" = before ++ s'.pending) ∧
      (∀ k e, feed.results[k]? = some (.error e) →
        k + 1 = feed.results.length ∧ s'.pending = "") ∧
      ∃ ending done,
        Runs (sameLine [s.pending ++ line]) s.interpreter
          (Reader.ofString (s.pending ++ line ++ "\n")) [] ending done s'.interpreter ∧
        Reports done ending feed.results s' ∧
        (feed = .needMore ↔
          done = [] ∧ (∀ told, ¬ ending.Tells told) ∧ s'.pending ≠ "") := by
  have hsymbols : i.symbols.InOrder := ⟨names, h⟩
  refine ⟨?_, rfl, ?_⟩
  · apply (hs.breaksOff hsymbols).imp_right
    intro hincomplete
    cases houtcome : ((Reader.ofString s.pending).read s.interpreter.symbols).outcome with
    | ok found => simp [houtcome, Incomplete] at hincomplete
    | error e =>
      rw [houtcome] at hincomplete
      cases e with
      | unexpectedEnd inside line => exact ⟨inside, line, rfl⟩
      | _ => simp [Incomplete, ReadError.isIncomplete] at hincomplete
  · intro fuel line feed s' hfed
    obtain ⟨ending, done, hruns, hreports⟩ := feed_runs (hs.inOrder hsymbols) hfed
    refine ⟨exists_before_pending hfed, fun k e => hreports.error_is_last, ending, done, hruns,
      hreports, ?_⟩
    rw [feed_needMore_iff hfed, hreports.results_eq_nil_iff, and_assoc]

/-- A list that breaks off waits, and fails once it is complete. -/
theorem broken_list_waits_and_fails :
    ∃ names s feed s', heldClosure.symbols.Represents names ∧ Reached heldClosure s ∧
      s.pending = " (set! f\n" ∧ (∃ inside line,
        ((Reader.ofString s.pending).read s.interpreter.symbols).outcome =
          .error (.unexpectedEnd inside line)) ∧
      s.feed 60 ")" = some (feed, s') ∧ feed.results.map (·.isOk) = [false] ∧ s'.pending = "" := by
  obtain ⟨names, hnames⟩ := inOrder_heldSymbols
  have hfeeds : ((ofInterpreter heldClosure).feed 60 "f (set! f").bind (fun x =>
      (x.2.feed 60 ")").map fun y => (x.2.pending, y.1.results.map (·.isOk))) =
        some (" (set! f\n", [false]) := by decide +kernel
  obtain ⟨⟨first, s⟩, hfirst, hsecond⟩ := Option.bind_eq_some_iff.mp hfeeds
  obtain ⟨⟨feed, s'⟩, hsecond, hanswers⟩ := Option.map_eq_some_iff.mp hsecond
  obtain ⟨hpending, hresults⟩ : s.pending = " (set! f\n" ∧ feed.results.map (·.isOk) = [false] :=
    Prod.mk.inj hanswers
  have hs : Reached heldClosure s := Reached.start.fed hfirst
  obtain ⟨hbreaks, -, hfeed⟩ := pending_text_breaks_off_in_a_datum (i := heldClosure) hnames hs
  obtain ⟨e, he⟩ : ∃ e, feed.results[0]? = some (.error e) := by
    obtain ⟨result, hresult, hisOk⟩ := List.map_eq_singleton_iff.mp hresults
    cases result with
    | ok v => simp [Except.isOk, Except.toBool] at hisOk
    | error e => exact ⟨e, by rw [hresult]; rfl⟩
  refine ⟨names, s, feed, s', hnames, hs, hpending, ?_, hsecond, hresults, ?_⟩
  · apply hbreaks.resolve_left
    rw [hpending]
    decide
  · exact ((hfeed 60 ")" feed s' hsecond).2.1 0 e he).2

end Session
end MiniScheme
