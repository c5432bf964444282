import MiniScheme.Proofs.Reader.Displacement
/-! # Completing a text

Where a text ends too early there are forms open, and each of them can be closed. There is one thing
that cannot be made good: behind its tail a list takes nothing but its parenthesis, yet a list, a
quotation or a string that begins there is refused only once it is complete. A text that ends in
between is reported as one that ended too early, and nothing that follows completes it.
-/
namespace MiniScheme.Reader

open MiniScheme.Text

variable {r after : Reader} {symbols symbols' : SymbolTable} {stack stack' : List Unclosed}
  {d : Datum} {cs more : List Char}

/-- One of the lists has its tail. -/
def HasEnded (stack : List Unclosed) : Prop := ∃ reversed tail, .ended reversed tail ∈ stack

private theorem hasEnded_cons {form : Unclosed} (h : ∀ reversed tail, form ≠ .ended reversed tail) :
    HasEnded (form :: stack) ↔ HasEnded stack := by
  constructor
  · rintro ⟨reversed, tail, hmem⟩
    exact ⟨reversed, tail, (List.mem_cons.mp hmem).resolve_left (h reversed tail).symm⟩
  · rintro ⟨reversed, tail, hmem⟩
    exact ⟨reversed, tail, List.mem_cons_of_mem _ hmem⟩

private theorem HasEnded.of_tail (h : HasEnded stack.tail) : HasEnded stack :=
  h.imp fun _ htail => htail.imp fun _ hmem => List.mem_of_mem_tail hmem

/-- The forms that the next token stands in, less the one that it closes. -/
def around (r : Reader) (stack : List Unclosed) : List Unclosed :=
  if r.cursor.peek = ')' then stack.tail else stack

/-- What a token leads to inside of these forms: a list that has its tail stays open or is wrong, and
no list gets its tail below another form. -/
def Leaves (stack : List Unclosed) : Except ReadError Progress → Prop
  | .ok (.finished _) => ¬ HasEnded stack
  | .ok (.inside stack') => HasEnded stack'.tail ↔ HasEnded stack
  | .error _ => True

private theorem leaves_complete (r : Reader) (symbols : SymbolTable) (stack : List Unclosed)
    (d : Datum) :
    Leaves stack (r.complete symbols stack d).outcome := by
  induction stack generalizing r symbols d with
  | nil =>
    rintro ⟨reversed, tail, hmem⟩
    simp at hmem
  | cons form stack ih =>
    cases form with
    | quotation =>
      have hcons : HasEnded (.quotation :: stack) ↔ HasEnded stack := hasEnded_cons (by simp)
      rw [complete]
      rcases r.quoteSymbol symbols with ⟨outcome, r', symbols'⟩
      cases outcome with
      | error e => trivial
      | ok x =>
        have hrest := ih r' symbols' (.pair (.symbol x) (.pair d .nil))
        dsimp only
        unfold Leaves at hrest ⊢
        rw [hcons]
        exact hrest
    | list reversed => exact (hasEnded_cons (by simp)).symm
    | dotted reversed => exact (hasEnded_cons (by simp)).symm
    | ended reversed tail => trivial

private theorem close_eq_ok {line : Nat} (h : close line stack = .ok (d, stack')) :
    stack' = stack.tail := by
  unfold close at h
  split at h <;> cases h <;> rfl

private theorem dot_eq_ok {line : Nat} (h : dot line stack = .ok stack') :
    ∃ d reversed outer, stack = .list (d :: reversed) :: outer ∧
      stack' = .dotted (d :: reversed) :: outer := by
  unfold dot at h
  split at h <;> cases h
  exact ⟨_, _, _, rfl, rfl⟩

private theorem leaves_step (r : Reader) (symbols : SymbolTable) (stack : List Unclosed) :
    Leaves (r.around stack) (r.step symbols stack).outcome := by
  have haround (h : r.cursor.peek ≠ ')') : r.around stack = stack := if_neg h
  have hstep := stepsTo r symbols stack
  generalize r.step symbols stack = reading at hstep ⊢
  cases hstep with
  | opened here | quoted here =>
    rw [haround (by rw [here]; decide)]
    exact Iff.rfl
  | closed here form =>
    rw [around, if_pos here, ← close_eq_ok form]
    exact leaves_complete _ symbols _ _
  | unclosed | misplaced | noAtom => trivial
  | dotted here form =>
    obtain ⟨d, reversed, outer, rfl, rfl⟩ := dot_eq_ok form
    rw [haround (by rw [Cursor.peek_of_nextIsLoneDot here]; decide)]
    exact (hasEnded_cons (by simp)).symm
  | atom here _ =>
    rw [haround here.notClose]
    exact leaves_complete _ _ stack _

private theorem HasEnded.around (h : HasEnded stack.tail) (r : Reader) :
    HasEnded (r.around stack) := by
  unfold Reader.around
  split
  · exact h
  · exact h.of_tail

/-- Around a list that has its tail, nothing is ever completed. -/
theorem HasEnded.not_ok (h : HasEnded (r.skipBlanks.around stack)) (symbols : SymbolTable)
    (d : Datum) : (r.readDatum symbols stack).outcome ≠ .ok d := by
  fun_induction readDatum r symbols stack with
  | case1 r symbols stack hend => simp
  | case2 r symbols stack hend d' after symbols' hstep =>
    have hleaves := leaves_step r.skipBlanks symbols stack
    rw [hstep] at hleaves
    exact absurd h hleaves
  | case3 r symbols stack hend stack' after symbols' hstep ih =>
    have hleaves := leaves_step r.skipBlanks symbols stack
    rw [hstep] at hleaves
    exact ih ((hleaves.mpr h).around after.skipBlanks)
  | case4 r symbols stack hend e after symbols' hstep => simp

/-- Somewhere on the way a datum begins behind the tail of a list. -/
inductive Overfull : Reader → SymbolTable → List Unclosed → Prop
  | here {r : Reader} {symbols : SymbolTable} {stack : List Unclosed} {reversed : List Datum}
    {tail : Datum} {ch : Char} {rest : List Char}
    (hnext : r.skipBlanks.cursor.upcoming = ch :: rest) (hdatum : ch ≠ ')') :
    Overfull r symbols (.ended reversed tail :: stack)
  | later {r after : Reader} {symbols symbols' : SymbolTable} {stack stack' : List Unclosed}
    (hnext : r.skipBlanks.cursor.upcoming ≠ [])
    (hstep : r.skipBlanks.step symbols stack = ⟨.ok (.inside stack'), after, symbols'⟩)
    (behind : Overfull after symbols' stack') : Overfull r symbols stack

private theorem hasEnded_around_here {reversed : List Datum} {tail : Datum} {ch : Char}
    (hnext : r.skipBlanks.cursor.upcoming = ch :: cs) (hdatum : ch ≠ ')') :
    HasEnded (r.skipBlanks.around (.ended reversed tail :: stack)) := by
  rw [around, if_neg (by rwa [Cursor.peek_of_upcoming hnext])]
  exact ⟨reversed, tail, List.mem_cons_self⟩

private theorem suffix_of_step {outcome : Except ReadError Progress}
    (hstep : r.skipBlanks.step symbols stack = ⟨outcome, after, symbols'⟩) :
    after.cursor.upcoming <:+ r.skipBlanks.cursor.upcoming := by
  have hkeeps := keeps_step (P := fun c => c.upcoming <:+ r.skipBlanks.cursor.upcoming)
    (fun c hc => by rw [Cursor.upcoming_next]; exact (List.drop_suffix _ _).trans hc)
    (List.suffix_refl _) symbols stack
  rwa [hstep] at hkeeps

private theorem suffix_skipBlanks (r : Reader) :
    r.skipBlanks.cursor.upcoming <:+ r.cursor.upcoming := by
  rw [skipBlanks, Cursor.skipBlanks, Cursor.upcoming_advance]
  exact List.drop_suffix _ _

theorem isDelimiter_here {reversed : List Datum} {tail : Datum} {ch : Char}
    (hnext : r.skipBlanks.cursor.upcoming = ch :: cs) (hdatum : ch ≠ ')')
    (hincomplete : Incomplete (r.readDatum symbols (.ended reversed tail :: stack)).outcome) :
    isDelimiter ch = true := by
  have hpeek := Cursor.peek_of_upcoming hnext
  by_cases hopen : ch = '('
  · rw [hopen]
    decide
  by_cases hquote : ch = '\''
  · rw [hquote]
    decide
  have herror : ∃ e,
      (r.skipBlanks.step symbols (.ended reversed tail :: stack)).outcome = .error e := by
    have hstep := stepsTo r.skipBlanks symbols (.ended reversed tail :: stack)
    rw [← hpeek] at hopen hquote hdatum
    generalize r.skipBlanks.step symbols (.ended reversed tail :: stack) = reading at hstep ⊢
    cases hstep with
    | opened here => exact absurd here hopen
    | quoted here => exact absurd here hquote
    | closed here => exact absurd here hdatum
    | dotted _ form => cases form
    | unclosed | misplaced | atom | noAtom => exact ⟨_, rfl⟩
  obtain ⟨e, he⟩ := herror
  have hcut : Incomplete (r.skipBlanks.step symbols (.ended reversed tail :: stack)).outcome := by
    rw [readDatum_eq_resume hnext] at hincomplete
    rcases hstep : r.skipBlanks.step symbols (.ended reversed tail :: stack) with
      ⟨outcome, after, symbols'⟩
    rw [hstep] at he hincomplete
    obtain rfl : outcome = .error e := he
    exact hincomplete
  rw [← hpeek, string_of_step hcut]
  decide

private theorem incomplete_of_inside {stack' : List Unclosed}
    (hnext : r.skipBlanks.cursor.upcoming ≠ [])
    (hstep : r.skipBlanks.step symbols stack = ⟨.ok (.inside stack'), after, symbols'⟩)
    (h : Incomplete (r.readDatum symbols stack).outcome) :
    Incomplete (after.readDatum symbols' stack').outcome := by
  obtain ⟨ch, cs, hcs⟩ := List.exists_cons_of_ne_nil hnext
  rw [readDatum_eq_resume hcs, hstep] at h
  exact h

private theorem Overfull.exists_isDelimiter (h : Overfull r symbols stack)
    (hincomplete : Incomplete (r.readDatum symbols stack).outcome) :
    ∃ ch ∈ r.skipBlanks.cursor.upcoming, isDelimiter ch = true := by
  induction h with
  | @here r symbols stack reversed tail ch rest hnext hdatum =>
    exact ⟨ch, by rw [hnext]; exact List.mem_cons_self,
      isDelimiter_here hnext hdatum hincomplete⟩
  | @later r after symbols symbols' stack stack' hnext hstep _ ih =>
    obtain ⟨ch, hmem, hch⟩ := ih (incomplete_of_inside hnext hstep hincomplete)
    exact ⟨ch, (suffix_of_step hstep).subset ((suffix_skipBlanks after).subset hmem), hch⟩

/-- Nothing completes an overfull list. -/
theorem Overfull.not_ok_extend (h : Overfull r symbols stack)
    (hincomplete : Incomplete (r.readDatum symbols stack).outcome) (more : List Char) (d : Datum) :
    ((r.extend more).readDatum symbols stack).outcome ≠ .ok d := by
  induction h with
  | @here r symbols stack reversed tail ch rest hnext hdatum =>
    have hupcoming : (r.extend more).skipBlanks.cursor.upcoming = ch :: (rest ++ more) := by
      rw [skipBlanks_extend (by simp [hnext]), extend, Cursor.upcoming_extend, hnext,
        List.cons_append]
    exact (hasEnded_around_here hupcoming hdatum).not_ok symbols d
  | @later r after symbols symbols' stack stack' hnext hstep behind ih =>
    have hbehind := incomplete_of_inside hnext hstep hincomplete
    obtain ⟨ch, hmem, hch⟩ := behind.exists_isDelimiter hbehind
    have hparted : Parted r.skipBlanks.cursor.upcoming more :=
      .inl ⟨ch, (suffix_of_step hstep).subset ((suffix_skipBlanks after).subset hmem), hch⟩
    rw [readDatum_extend_step hparted (mt Cursor.atEnd_iff.mp hnext)
      (by rw [hstep]; exact id), hstep]
    exact ih hbehind

/-- What closes these forms around a datum that is complete. -/
def finish : List Unclosed → List Char
  | [] => []
  | .quotation :: stack => finish stack
  | _ :: stack => ')' :: finish stack

/-- What completes the innermost form and closes those around it. -/
def closing : List Unclosed → List Char
  | .list _ :: stack => ')' :: finish stack
  | .ended _ _ :: stack => ')' :: finish stack
  | stack => '(' :: ')' :: finish stack

def CanQuote (r : Reader) (symbols : SymbolTable) : Prop :=
  r.quotation.isSome = true ∨ ∃ x symbols', symbols.intern "quote" = (.ok x, symbols')

private theorem CanQuote.quoteSymbol (h : r.CanQuote symbols) :
    ∃ x r' symbols', r.quoteSymbol symbols = ⟨.ok x, r', symbols'⟩ ∧ r'.cursor = r.cursor ∧
      r'.CanQuote symbols' := by
  unfold Reader.quoteSymbol
  cases hquotation : r.quotation with
  | some x => exact ⟨x, r, symbols, rfl, rfl, .inl (by simp [hquotation])⟩
  | none =>
    obtain hsome | ⟨x, symbols', hintern⟩ := h
    · simp [hquotation] at hsome
    · rw [hintern]
      exact ⟨x, { r with quotation := some x }, symbols', rfl, rfl, .inl rfl⟩

private theorem ends_finish (stack : List Unclosed) : Ends (finish stack) := by
  induction stack with
  | nil => exact ends_nil
  | cons form stack ih =>
    cases form with
    | quotation => exact ih
    | list reversed => exact ends_cons (by decide) _
    | dotted reversed => exact ends_cons (by decide) _
    | ended reversed tail => exact ends_cons (by decide) _

/-- A datum was read, and nothing of the text is left. -/
def UsesUp (reading : Reading Datum) : Prop :=
  (∃ d, reading.outcome = .ok d) ∧ reading.reader.cursor.upcoming = []

private theorem usesUp_finish (hstack : ¬ HasEnded stack) (hquote : r.CanQuote symbols)
    (htext : r.cursor.upcoming = finish stack) (d : Datum) :
    UsesUp (resume (r.complete symbols stack d)) := by
  induction stack generalizing r symbols d with
  | nil => exact ⟨⟨d, rfl⟩, htext⟩
  | cons form stack ih =>
    have hclose {form : Unclosed} {d : Datum}
        (hform : ∀ line, close line (form :: stack) = .ok (d, stack))
        (hstack : ¬ HasEnded stack) (htext : r.cursor.upcoming = ')' :: finish stack) :
        UsesUp (r.readDatum symbols (form :: stack)) := by
      have hnext := upcoming_skipBlanks htext (begins_close _)
      rw [readDatum_close hnext hform]
      exact ih (r := r.skipBlanks.moved) hstack hquote (upcoming_moved hnext) d
    cases form with
    | quotation =>
      rw [hasEnded_cons (by simp)] at hstack
      obtain ⟨x, r', symbols', hread, hcursor, hquote'⟩ := hquote.quoteSymbol
      rw [complete, hread]
      exact ih hstack hquote' (by rwa [hcursor]) _
    | list reversed =>
      rw [hasEnded_cons (by simp)] at hstack
      exact hclose (fun _ => rfl) hstack htext
    | dotted reversed =>
      rw [hasEnded_cons (by simp)] at hstack
      exact hclose (fun _ => rfl) hstack htext
    | ended reversed tail => exact absurd ⟨reversed, tail, List.mem_cons_self⟩ hstack

theorem usesUp_closing (hstack : ¬ HasEnded stack.tail) (hquote : r.CanQuote symbols)
    (htext : r.skipBlanks.cursor.upcoming = closing stack) :
    UsesUp (r.readDatum symbols stack) := by
  have hclose {outer : List Unclosed} (hstack : ¬ HasEnded outer)
      (htext : r.skipBlanks.cursor.upcoming = ')' :: finish outer) (d : Datum) :
      UsesUp (resume (r.skipBlanks.moved.complete symbols outer d)) :=
    usesUp_finish (r := r.skipBlanks.moved) hstack hquote (upcoming_moved htext) d
  have hempty {stack : List Unclosed} (hstack : ¬ HasEnded stack)
      (htext : r.skipBlanks.cursor.upcoming = '(' :: ')' :: finish stack) :
      UsesUp (r.readDatum symbols stack) := by
    have hnil : ReadsValue symbols ['(', ')'] .nil := readsValue_nil
    obtain ⟨r', hr', hquotation, hread⟩ := hnil r stack _ (ends_finish stack) htext
    rw [hread]
    exact usesUp_finish hstack (hquote.imp (by rw [hquotation]; exact id) id) hr' .nil
  cases stack with
  | nil => exact hempty (by rintro ⟨_, _, hmem⟩; simp at hmem) htext
  | cons form outer =>
    cases form with
    | quotation => exact hempty (by rwa [hasEnded_cons (by simp)]) htext
    | list reversed =>
      rw [readDatum_close htext fun _ => rfl]
      exact hclose hstack htext _
    | dotted reversed => exact hempty (by rwa [hasEnded_cons (by simp)]) htext
    | ended reversed tail =>
      rw [readDatum_close htext fun _ => rfl]
      exact hclose hstack htext _

theorem exists_closed {reversed : List Char} {count : Nat} {inside : Unfinished} {k : Nat}
    (hcut : scanString reversed count cs = .cut inside k) :
    ∃ letters, ∀ rest, ∃ text, scanString reversed count (cs ++ (letters ++ '"' :: rest)) =
      .closed text (count + cs.length + letters.length + 1) := by
  fun_induction scanString reversed count cs with
  | case1 reversed count => exact ⟨[], fun rest => ⟨_, rfl⟩⟩
  | case2 reversed count rest => simp at hcut
  | case3 reversed count => exact ⟨['n'], fun rest => ⟨_, rfl⟩⟩
  | case4 reversed count letter cs ch hletter ih =>
    obtain ⟨letters, hletters⟩ := ih hcut
    refine ⟨letters, fun rest => ?_⟩
    obtain ⟨text, htext⟩ := hletters rest
    refine ⟨text, ?_⟩
    rw [List.cons_append, List.cons_append, scanString, hletter]
    simp only [htext, List.length_cons, StringScan.closed.injEq, true_and]
    omega
  | case5 reversed count letter cs hletter => simp at hcut
  | case6 reversed count ch cs hquote hslash hescape ih =>
    obtain ⟨letters, hletters⟩ := ih hcut
    refine ⟨letters, fun rest => ?_⟩
    obtain ⟨text, htext⟩ := hletters rest
    refine ⟨text, ?_⟩
    rw [List.cons_append, scanString_plain hquote (ne_escape hslash hescape), htext,
      List.length_cons]
    simp only [StringScan.closed.injEq, true_and]
    omega

private theorem usesUp_string (hstack : ¬ HasEnded stack) (hquote : r.CanQuote symbols)
    {text : List Char} {k : Nat} (hnext : r.skipBlanks.cursor.upcoming = '"' :: cs)
    (hscan : scanString [] 0 cs = .closed text k) (hafter : cs.drop k = finish stack) :
    UsesUp (r.readDatum symbols stack) := by
  have hread : readAtom r.skipBlanks.cursor symbols =
      ⟨.ok (.str (String.ofList text)), r.skipBlanks.cursor.advance (k + 1), symbols⟩ := by
    rw [readAtom, if_pos (Cursor.peek_of_upcoming hnext)]
    simp only [readString, hnext, List.drop_succ_cons, List.drop_zero, hscan]
    rfl
  rw [readDatum_token hnext (by decide) (by decide) (by decide) rfl, hread]
  apply usesUp_finish (r := ⟨r.skipBlanks.cursor.advance (k + 1), r.quotation⟩) hstack hquote
  rw [Cursor.upcoming_advance, hnext, List.drop_succ_cons, hafter]

private theorem afterBlanks_closing (stack : List Unclosed) :
    Grammar.afterBlanks (closing stack) = closing stack := by
  obtain ⟨ch, rest, hclosing, hblank, hmark⟩ : Begins (closing stack) := by
    unfold closing
    split
    · exact begins_close _
    · exact begins_close _
    · exact ⟨'(', _, rfl, rfl, by decide⟩
  simp [hclosing, Grammar.afterBlanks, hblank, hmark]

private theorem usesUp_newline (htail : ¬ HasEnded stack.tail) (hquote : r.CanQuote symbols)
    (hend : r.skipBlanks.cursor.upcoming = []) :
    UsesUp ((r.extend ('\n' :: closing stack)).readDatum symbols stack) := by
  apply usesUp_closing (r := r.extend ('\n' :: closing stack)) htail hquote
  rw [upcoming_skipBlanks_eq] at hend
  have hblank : Grammar.afterBlanks ('\n' :: closing stack) = closing stack := by
    rw [Grammar.afterBlanks, if_pos (by decide), afterBlanks_closing]
  rw [upcoming_skipBlanks_eq, extend, Cursor.upcoming_extend,
    (Grammar.afterBlanks_append (.inr rfl)).1 hend, hblank]

private theorem exists_string_completion (hstack : ¬ HasEnded stack) (hquote : r.CanQuote symbols)
    (hnext : r.skipBlanks.cursor.upcoming ≠ [])
    (hcut : Incomplete (r.skipBlanks.step symbols stack).outcome) :
    ∃ more, more ≠ [] ∧ UsesUp ((r.extend more).readDatum symbols stack) := by
  have hstring := string_of_step hcut
  obtain ⟨inside, k, hscan⟩ := (step_string hstring symbols stack).2.1.mp hcut
  obtain ⟨ch, cs, hcs⟩ := List.exists_cons_of_ne_nil hnext
  obtain rfl : ch = '"' := (Cursor.peek_of_upcoming hcs).symm.trans hstring
  rw [hcs, List.drop_succ_cons, List.drop_zero] at hscan
  obtain ⟨letters, hletters⟩ := exists_closed hscan
  obtain ⟨text, htext⟩ := hletters (finish stack)
  refine ⟨letters ++ '"' :: finish stack, by simp, ?_⟩
  have hupcoming : (r.extend (letters ++ '"' :: finish stack)).skipBlanks.cursor.upcoming =
      '"' :: (cs ++ (letters ++ '"' :: finish stack)) := by
    rw [skipBlanks_extend hnext, extend, Cursor.upcoming_extend, hcs, List.cons_append]
  refine usesUp_string hstack hquote hupcoming htext ?_
  have hsplit : cs ++ (letters ++ '"' :: finish stack) =
      (cs ++ letters ++ ['"']) ++ finish stack := by simp
  rw [hsplit]
  apply List.drop_left'
  simp [Nat.add_assoc]

private theorem not_hasEnded_around (htail : ¬ HasEnded stack.tail)
    (hfull : ¬ Overfull r symbols stack)
    (hnext : r.skipBlanks.cursor.upcoming ≠ []) : ¬ HasEnded (r.skipBlanks.around stack) := by
  obtain ⟨ch, cs, hcs⟩ := List.exists_cons_of_ne_nil hnext
  unfold around
  split
  · exact htail
  · next hclose =>
    rw [Cursor.peek_of_upcoming hcs] at hclose
    cases stack with
    | nil =>
      rintro ⟨reversed, tail, hmem⟩
      simp at hmem
    | cons form outer =>
      cases form with
      | ended reversed tail => exact absurd (.here hcs hclose) hfull
      | _ => rwa [hasEnded_cons (by simp)]

/-- A text that ended too early, but not behind the tail of a list, can be completed. -/
theorem exists_completion (htail : ¬ HasEnded stack.tail) (hfull : ¬ Overfull r symbols stack)
    (hincomplete : Incomplete (r.readDatum symbols stack).outcome)
    (hquote : ∃ x symbols', (r.readDatum symbols stack).symbols.intern "quote" = (.ok x, symbols')) :
    ∃ more, more ≠ [] ∧ Parted r.cursor.upcoming more ∧
      UsesUp ((r.extend more).readDatum symbols stack) := by
  fun_induction readDatum r symbols stack with
  | case1 r symbols stack hend =>
    exact ⟨_, List.cons_ne_nil _ _, .inr (ends_cons (by decide) _),
      usesUp_newline htail (.inr hquote) (Cursor.atEnd_iff.mp hend)⟩
  | case2 r symbols stack hend d after symbols' hstep => exact absurd hincomplete id
  | case3 r symbols stack hend stack' after symbols' hstep ih =>
    have hne := mt Cursor.atEnd_iff.mpr hend
    have hleaves := leaves_step r.skipBlanks symbols stack
    rw [hstep] at hleaves
    have htail' : ¬ HasEnded stack'.tail :=
      mt hleaves.mp (not_hasEnded_around htail hfull hne)
    have hfull' : ¬ Overfull after symbols' stack' := fun h => hfull (.later hne hstep h)
    obtain ⟨more, hmore, hparted, huses⟩ := ih htail' hfull' hincomplete hquote
    have hhere : Parted r.skipBlanks.cursor.upcoming more :=
      hparted.of_suffix (suffix_of_step hstep)
    refine ⟨more, hmore, hhere.of_suffix (suffix_skipBlanks r), ?_⟩
    rw [readDatum_extend_step hhere hend (by rw [hstep]; exact id), hstep]
    exact huses
  | case4 r symbols stack hend e after symbols' hstep =>
    have hne := mt Cursor.atEnd_iff.mpr hend
    have hcut : Incomplete (r.skipBlanks.step symbols stack).outcome := by
      rw [hstep]
      exact hincomplete
    have hstring := string_of_step hcut
    have hstack : ¬ HasEnded stack := by
      have haround := not_hasEnded_around htail hfull hne
      rwa [around, if_neg (by rw [hstring]; decide)] at haround
    have hsymbols := (step_string hstring symbols stack).2.2 hcut
    rw [hstep] at hsymbols
    obtain ⟨more, hmore, huses⟩ :=
      exists_string_completion hstack (.inr (hsymbols ▸ hquote)) hne hcut
    obtain ⟨ch, cs, hcs⟩ := List.exists_cons_of_ne_nil hne
    have hdelim : isDelimiter ch = true := by
      rw [← Cursor.peek_of_upcoming hcs, hstring]
      decide
    refine ⟨more, hmore, .inl ⟨ch, ?_, hdelim⟩, huses⟩
    exact (suffix_skipBlanks r).subset (by rw [hcs]; exact List.mem_cons_self)

theorem offset_of_usesUp {source : String} {reading : Reading Datum}
    (hstands : reading.reader.cursor.StandsIn source.toList) (huses : UsesUp reading) :
    reading.reader.offset = source.utf8ByteSize := by
  obtain ⟨before, hsource, hoffset⟩ := hstands.offset_eq
  rw [huses.2, List.append_nil] at hsource
  rw [offset, hoffset, ← hsource, Cursor.byteCount_eq_utf8ByteSize, String.ofList_toList]

/-- A text that ended too early can be completed by a datum that goes on behind it, unless it ended in
a datum behind the tail of a list; then there is nothing that completes it. The bound on the capacity
holds of every table that fits a memory of 64-bit addresses. -/
theorem incomplete_text_is_completable_unless_overfull {names : List String} (source : String)
    (htable : symbols.Represents names) (hunlimited : symbols.maxCapacity = none)
    (hcapacity :
      2 * ((readFirst source symbols).symbols.capacity + 1) < 0x10000000000000000)
    (hincomplete : Incomplete (readFirst source symbols).outcome) :
    (∃ more d, (readFirst (source ++ more) symbols).outcome = .ok (some d) ∧
        source.utf8ByteSize < (readFirst (source ++ more) symbols).reader.offset) ↔
      ¬ Overfull (ofString source) symbols [] := by
  have hne := ne_nil_of_incomplete hincomplete
  have hread := read_eq_found hne symbols
  have hdatum : Incomplete ((ofString source).readDatum symbols []).outcome := by
    rwa [readFirst, hread, incomplete_found] at hincomplete
  have hmore (more : String) : readFirst (source ++ more) symbols =
      found (((ofString source).extend more.toList).readDatum symbols []) := by
    rw [readFirst, ← extend_ofString, read_eq_found (extend_ne_nil hne more.toList)]
  constructor
  · rintro ⟨more, d, hok, -⟩ hfull
    rw [hmore] at hok
    cases houtcome : (((ofString source).extend more.toList).readDatum symbols []).outcome with
    | ok d => exact hfull.not_ok_extend hdatum more.toList d houtcome
    | error e => simp [found, houtcome, Except.map] at hok
  · intro hfull
    have hgrows := grows_readDatum ⟨names, htable⟩ (ofString source) []
    have hquote : ∃ x symbols',
        ((ofString source).readDatum symbols []).symbols.intern "quote" = (.ok x, symbols') := by
      obtain ⟨names', htable'⟩ := hgrows.inOrder
      rw [readFirst, hread] at hcapacity
      have hgrow : ((ofString source).readDatum symbols []).symbols.CanGrow :=
        ⟨_, if_pos hcapacity, by simp [hgrows.maxCapacity, hunlimited]⟩
      obtain ⟨x, symbols', hintern, -⟩ := htable'.intern_of_canGrow hgrow "quote"
      exact ⟨x, symbols', hintern⟩
    have hnone : ¬ HasEnded ([] : List Unclosed).tail := by
      rintro ⟨reversed, tail, hmem⟩
      simp at hmem
    obtain ⟨more, hlonger, -, huses⟩ := exists_completion hnone hfull hdatum hquote
    obtain ⟨more, rfl⟩ : ∃ text : String, text.toList = more :=
      ⟨String.ofList more, String.toList_ofList⟩
    obtain ⟨d, hok⟩ := huses.1
    refine ⟨more, d, ?_, ?_⟩
    · rw [hmore, found, hok]
      rfl
    · have hstands : (((ofString source).extend more.toList).readDatum symbols
          []).reader.cursor.StandsIn (source ++ more).toList := by
        apply keeps_readDatum fun _ => Cursor.StandsIn.next
        rw [extend_ofString]
        exact Cursor.standsIn_ofString _
      have hsize : 0 < more.utf8ByteSize := by
        rw [Nat.pos_iff_ne_zero, Ne, String.utf8ByteSize_eq_zero_iff]
        rintro rfl
        exact hlonger rfl
      rw [hmore, found, offset_of_usesUp hstands huses, String.utf8ByteSize_append]
      omega

/-- Behind the tail of its list a list has begun: the text counts as one that ended too early, and is
never completed. -/
theorem list_behind_tail_is_never_completed :
    (readFirst "(1 . 2 (" (.withCapacity 1 none fun _ => 0)).outcome =
        .error (.unexpectedEnd .list 1) ∧
      ¬ ∃ more d, (readFirst ("(1 . 2 (" ++ more) (.withCapacity 1 none fun _ => 0)).outcome =
          .ok (some d) ∧
        "(1 . 2 (".utf8ByteSize <
          (readFirst ("(1 . 2 (" ++ more) (.withCapacity 1 none fun _ => 0)).reader.offset := by
  have hend : (readFirst "(1 . 2 (" (.withCapacity 1 none fun _ => 0)).outcome =
      .error (.unexpectedEnd .list 1) := by decide +kernel
  have hfull : Overfull (ofString "(1 . 2 (") (.withCapacity 1 none fun _ => 0) [] :=
    .later (by decide) rfl (.later (by decide) rfl (.later (by decide) rfl (.later (by decide) rfl
      (.here rfl (by decide)))))
  refine ⟨hend, ?_⟩
  rw [incomplete_text_is_completable_unless_overfull "(1 . 2 ("
    (SymbolTable.represents_withCapacity 1 none fun _ => 0) rfl (by decide +kernel)
    (by rw [hend]; rfl)]
  exact not_not_intro hfull

end MiniScheme.Reader
