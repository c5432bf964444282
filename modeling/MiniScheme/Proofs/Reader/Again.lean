import MiniScheme.Proofs.Reader.Ahead
/-! # Reading again

Reading only adds to the symbol table, and what went well goes the same in every table grown from
there. So where reading runs into the end of its text, reading again from the start with more text
ahead comes to the same from the table that was left as from the one before. What then completes the
datum stands behind the old end. Together this says how a reader of a part of a text keeps up with
one of the whole text.
-/
namespace MiniScheme

open Text (Cursor Lined Parted)

namespace Grammar

private theorem datum_congr {cs cs' : List Char} (h : afterBlanks cs = afterBlanks cs')
    (symbols : SymbolTable) : datum symbols cs = datum symbols cs' := by
  rw [datum, datum, h]

private theorem read_congr {cs cs' : List Char} (h : afterBlanks cs = afterBlanks cs')
    (symbols : SymbolTable) : read symbols cs = read symbols cs' := by
  rw [read, read, h, datum_congr h]

end Grammar

namespace Reader

variable {r : Reader} {c : Cursor} {symbols symbols' symbols'' : SymbolTable}
  {stack : List Unclosed} {more : List Char}

theorem grows_quoteSymbol (h : symbols.InOrder) (r : Reader) :
    symbols.Grows (r.quoteSymbol symbols).symbols := by
  unfold quoteSymbol
  split
  · exact h.grows_refl
  split
  · next hintern => exact h.grows_of_intern hintern
  · next hintern => exact h.grows_of_intern hintern

private theorem grows_complete (h : symbols.InOrder) (r : Reader) (stack : List Unclosed)
    (d : Datum) :
    symbols.Grows (r.complete symbols stack d).symbols := by
  induction stack generalizing r symbols d with
  | nil => exact h.grows_refl
  | cons form stack ih =>
    cases form with
    | quotation =>
      have hquote := grows_quoteSymbol h r
      rw [complete]
      rcases hread : r.quoteSymbol symbols with ⟨outcome, r', symbols'⟩
      rw [hread] at hquote
      cases outcome with
      | ok x => exact hquote.trans (ih hquote.inOrder r' _)
      | error e => exact hquote
    | list reversed => exact h.grows_refl
    | dotted reversed => exact h.grows_refl
    | ended reversed tail => exact h.grows_refl

theorem grows_step (h : symbols.InOrder) (r : Reader) (stack : List Unclosed) :
    symbols.Grows (r.step symbols stack).symbols := by
  have hatom := grows_readAtom h r.cursor
  have hstep := stepsTo r symbols stack
  generalize r.step symbols stack = reading at hstep ⊢
  cases hstep with
  | opened | quoted | unclosed | dotted | misplaced => exact h.grows_refl
  | closed => exact grows_complete h _ _ _
  | atom _ hread =>
    rw [hread] at hatom
    exact hatom.trans (grows_complete hatom.inOrder _ _ _)
  | noAtom _ hread =>
    rw [hread] at hatom
    exact hatom

theorem grows_readDatum (h : symbols.InOrder) (r : Reader) (stack : List Unclosed) :
    symbols.Grows (r.readDatum symbols stack).symbols :=
  of_readDatum (Q := fun _ symbols' => symbols.Grows symbols') (fun _ _ => id)
    (fun r _ stack hgrows => hgrows.trans (grows_step hgrows.inOrder r stack)) h.grows_refl stack

theorem intern_again {name : String} {x : Symbol} (h : symbols.InOrder)
    (hintern : symbols.intern name = (.ok x, symbols')) (hgrows : symbols'.Grows symbols'') :
    symbols''.intern name = (.ok x, symbols'') :=
  intern_of_lookup (hgrows.keeps _ _ (h.lookup_of_intern hintern))

private theorem readSymbol_again {d : Datum} {c' : Cursor} (h : symbols.InOrder)
    (hread : readSymbol c symbols = ⟨.ok d, c', symbols'⟩) (hgrows : symbols'.Grows symbols'') :
    readSymbol c symbols'' = ⟨.ok d, c', symbols''⟩ := by
  simp only [readSymbol] at hread ⊢
  by_cases hempty : c.readToken.1.isEmpty = true
  · simp [hempty] at hread
  rw [if_neg hempty] at hread ⊢
  rcases hintern : symbols.intern (String.ofList c.readToken.1) with ⟨answer, symbols₁⟩
  rw [hintern] at hread
  cases answer with
  | error e => simp at hread
  | ok x =>
    obtain ⟨hd, hc, rfl⟩ := AtomRead.mk.inj hread
    rw [intern_again h hintern hgrows, ← hd, ← hc]

theorem readAtom_again {d : Datum} {c' : Cursor} (h : symbols.InOrder)
    (hread : readAtom c symbols = ⟨.ok d, c', symbols'⟩) (hgrows : symbols'.Grows symbols'') :
    readAtom c symbols'' = ⟨.ok d, c', symbols''⟩ := by
  unfold readAtom at hread ⊢
  by_cases hstring : c.peek = '"'
  · rw [if_pos hstring] at hread ⊢
    obtain ⟨hd, hc, -⟩ := AtomRead.mk.inj hread
    rw [readString, hd, hc]
  rw [if_neg hstring] at hread ⊢
  by_cases hhash : c.peek = '#'
  · rw [if_pos hhash] at hread ⊢
    obtain ⟨hd, hc, -⟩ := AtomRead.mk.inj hread
    rw [readHash, hd, hc]
  rw [if_neg hhash] at hread ⊢
  by_cases hnum : c.nextIsNumber = true
  · rw [if_pos hnum] at hread ⊢
    obtain ⟨hd, hc, -⟩ := AtomRead.mk.inj hread
    rw [readNumber, hd, hc]
  rw [if_neg hnum] at hread ⊢
  exact readSymbol_again h hread hgrows

private theorem quoteSymbol_again {x : Symbol} {r' : Reader} (h : symbols.InOrder)
    (hread : r.quoteSymbol symbols = ⟨.ok x, r', symbols'⟩) (hgrows : symbols'.Grows symbols'') :
    r.quoteSymbol symbols'' = ⟨.ok x, r', symbols''⟩ := by
  unfold quoteSymbol at hread ⊢
  cases hquotation : r.quotation with
  | some q =>
    rw [hquotation] at hread
    obtain ⟨hx, hr, -⟩ := Reading.mk.inj hread
    rw [← hx, ← hr]
  | none =>
    rw [hquotation] at hread
    rcases hintern : symbols.intern "quote" with ⟨answer, symbols₁⟩
    rw [hintern] at hread
    cases answer with
    | error e => simp at hread
    | ok y =>
      obtain ⟨hx, hr, rfl⟩ := Reading.mk.inj hread
      rw [intern_again h hintern hgrows, ← hx, ← hr]

private theorem complete_again {progress : Progress} {r' : Reader} {d : Datum} (h : symbols.InOrder)
    (hread : r.complete symbols stack d = ⟨.ok progress, r', symbols'⟩)
    (hgrows : symbols'.Grows symbols'') :
    r.complete symbols'' stack d = ⟨.ok progress, r', symbols''⟩ := by
  induction stack generalizing r symbols d with
  | nil =>
    obtain ⟨hd, hr, -⟩ := Reading.mk.inj hread
    rw [complete, hd, hr]
  | cons form stack ih =>
    cases form with
    | quotation =>
      have hquote := grows_quoteSymbol h r
      rw [complete] at hread ⊢
      rcases heq : r.quoteSymbol symbols with ⟨outcome, r₁, symbols₁⟩
      rw [heq] at hread hquote
      cases outcome with
      | ok x =>
        have hrest := grows_complete hquote.inOrder r₁ stack
          (.pair (.symbol x) (.pair d .nil))
        have hread : r₁.complete symbols₁ stack (.pair (.symbol x) (.pair d .nil)) =
          ⟨.ok progress, r', symbols'⟩ := hread
        rw [hread] at hrest
        rw [quoteSymbol_again h heq (hrest.trans hgrows)]
        exact ih hquote.inOrder hread
      | error e => simp at hread
    | list reversed =>
      obtain ⟨hd, hr, -⟩ := Reading.mk.inj hread
      rw [complete, hd, hr]
    | dotted reversed =>
      obtain ⟨hd, hr, -⟩ := Reading.mk.inj hread
      rw [complete, hd, hr]
    | ended reversed tail => simp [complete] at hread

theorem step_again {progress : Progress} {r' : Reader} (h : symbols.InOrder)
    (hread : r.step symbols stack = ⟨.ok progress, r', symbols'⟩)
    (hgrows : symbols'.Grows symbols'') :
    r.step symbols'' stack = ⟨.ok progress, r', symbols''⟩ := by
  have hatom := grows_readAtom h r.cursor
  have hstep := stepsTo r symbols stack
  generalize r.step symbols stack = reading at hstep hread
  cases hstep with
  | unclosed | misplaced | noAtom => cases hread
  | opened here =>
    cases hread
    exact (StepsTo.opened here).eq
  | quoted here =>
    cases hread
    exact (StepsTo.quoted here).eq
  | closed here form =>
    rw [(StepsTo.closed here form).eq]
    exact complete_again h hread hgrows
  | dotted here form =>
    cases hread
    exact (StepsTo.dotted here form).eq
  | atom here heq =>
    rw [heq] at hatom
    have hrest := hread ▸ grows_complete hatom.inOrder _ stack _
    rw [(StepsTo.atom here (readAtom_again h heq (hrest.trans hgrows))).eq]
    exact complete_again hatom.inOrder hread hgrows

/-- Only a string can end too early within a step. -/
theorem string_of_step (h : Incomplete (r.step symbols stack).outcome) : r.cursor.peek = '"' := by
  cases houtcome : (r.step symbols stack).outcome with
  | ok progress =>
    rw [houtcome] at h
    exact h.elim
  | error e =>
    rw [houtcome] at h
    cases step_fault houtcome with
    | cut start inside line => exact start
    | _ => simp [Incomplete, ReadError.isIncomplete] at h

theorem step_string (hstring : r.cursor.peek = '"') (symbols : SymbolTable)
    (stack : List Unclosed) :
    (r.step symbols stack).reader.cursor =
        r.cursor.advance ((scanString [] 0 (r.cursor.upcoming.drop 1)).count + 1) ∧
      (Incomplete (r.step symbols stack).outcome ↔
        ∃ inside k, scanString [] 0 (r.cursor.upcoming.drop 1) = .cut inside k) ∧
      (Incomplete (r.step symbols stack).outcome → (r.step symbols stack).symbols = symbols) := by
  rw [step_of_atom (atAtom_of_string hstring), readAtom, if_pos hstring]
  simp only [readString]
  generalize scanString [] 0 (r.cursor.upcoming.drop 1) = scan
  cases scan with
  | closed text k =>
    have hnot := not_incomplete_complete { r with cursor := r.cursor.advance (k + 1) } symbols stack
      (.str (String.ofList text))
    refine ⟨cursor_complete _ _ _ _, ⟨fun h => absurd h hnot, ?_⟩, fun h => absurd h hnot⟩
    rintro ⟨_, _, ⟨⟩⟩
  | cut inside k => exact ⟨rfl, ⟨fun _ => ⟨inside, k, rfl⟩, fun _ => rfl⟩, fun _ => rfl⟩
  | badEscape ch k =>
    refine ⟨rfl, ⟨fun h => absurd h Bool.false_ne_true, ?_⟩, fun _ => rfl⟩
    rintro ⟨_, _, ⟨⟩⟩

/-- A text that ends too early is read again from its start with more text ahead: the symbols it
has interned meanwhile make no difference. -/
theorem readDatum_again (h : symbols.InOrder) (hlined : Lined r.cursor.upcoming)
    (hincomplete : Incomplete (r.readDatum symbols stack).outcome) (more : List Char) :
    (r.extend more).readDatum (r.readDatum symbols stack).symbols stack =
      (r.extend more).readDatum symbols stack := by
  fun_induction readDatum r symbols stack with
  | case1 r symbols stack hend => rfl
  | case2 r symbols stack hend d after symbols' hstep => exact absurd hincomplete id
  | case3 r symbols stack hend stack' after symbols' hstep ih =>
    have hgrows : symbols.Grows symbols' := by
      have hgrows := grows_step h r.skipBlanks stack
      rwa [hstep] at hgrows
    have hagain := step_again h hstep (grows_readDatum hgrows.inOrder after stack')
    have hparted : Parted r.skipBlanks.cursor.upcoming more := parted_skipBlanks hlined hend
    rw [readDatum_extend_step hparted hend (by rw [hagain]; exact id), hagain,
      readDatum_extend_step hparted hend (by rw [hstep]; exact id), hstep]
    exact ih hgrows.inOrder (lined_of_step hlined hstep) hincomplete
  | case4 r symbols stack hend e after symbols' hstep =>
    have hstep' : Incomplete (r.skipBlanks.step symbols stack).outcome := by
      rw [hstep]
      exact hincomplete
    have hsame := (step_string (string_of_step hstep') symbols stack).2.2 hstep'
    rw [hstep] at hsame
    rw [hsame]

private theorem remaining_readDatum_skipBlanks (r : Reader) (symbols : SymbolTable)
    (stack : List Unclosed) (hend : ¬ r.skipBlanks.cursor.atEnd = true) :
    (r.readDatum symbols stack).reader.cursor.remaining < r.skipBlanks.cursor.remaining := by
  have hlt := remaining_step (r := r.skipBlanks) symbols stack (by simpa using hend)
  unfold readDatum
  rw [dif_neg hend]
  split <;> rename_i hstep <;> rw [hstep] at hlt
  · exact hlt
  · exact Nat.lt_of_le_of_lt (remaining_readDatum_le _ _ _) hlt
  · exact hlt

private theorem remaining_resume_le (reading : Reading Progress) :
    (resume reading).reader.cursor.remaining ≤ reading.reader.cursor.remaining := by
  obtain ⟨outcome, r, symbols⟩ := reading
  match outcome with
  | .ok (.finished d) => exact Nat.le_refl _
  | .ok (.inside stack) => exact remaining_readDatum_le r symbols stack
  | .error e => exact Nat.le_refl _

theorem remaining_string_extend (hne : r.skipBlanks.cursor.upcoming ≠ [])
    (hstring : r.skipBlanks.cursor.peek = '"') {inside : Unfinished} {k : Nat}
    (hscan : scanString [] 0 (r.skipBlanks.cursor.upcoming.drop 1) = .cut inside k)
    (hmore : ¬ Incomplete ((r.extend more).readDatum symbols stack).outcome) :
    ((r.extend more).readDatum symbols stack).reader.cursor.remaining < more.length := by
  obtain ⟨ch, cs, hcs⟩ := List.exists_cons_of_ne_nil hne
  have hupcoming : (r.extend more).skipBlanks.cursor.upcoming = ch :: (cs ++ more) := by
    rw [skipBlanks_extend hne, extend, Cursor.upcoming_extend, hcs, List.cons_append]
  have hpeek : (r.extend more).skipBlanks.cursor.peek = '"' := by
    rw [skipBlanks_extend hne, extend, Cursor.peek_extend hne, hstring]
  obtain ⟨hcursor, hcut, -⟩ := step_string hpeek symbols stack
  rw [hcs, List.drop_succ_cons, List.drop_zero] at hscan
  rw [hupcoming, List.drop_succ_cons, List.drop_zero] at hcursor hcut
  rw [readDatum_eq_resume hupcoming] at hmore ⊢
  have hended (inside : Unfinished) (k : Nat) : scanString [] 0 (cs ++ more) ≠ .cut inside k := by
    intro heq
    have hstep := hcut.mpr ⟨inside, k, heq⟩
    rcases hread : (r.extend more).skipBlanks.step symbols stack with ⟨outcome, r', symbols'⟩
    rw [hread] at hstep hmore
    cases outcome with
    | ok progress => exact hstep
    | error e => exact hmore hstep
  have hlt := lt_count_scanString_append [] 0 cs more hscan hended
  have hle := (scanString_extend [] 0 (cs ++ more) [] hended).2
  have hremaining := congrArg Cursor.remaining hcursor
  rw [Cursor.remaining_advance, ← Cursor.length_upcoming (r.extend more).skipBlanks.cursor,
    hupcoming] at hremaining
  have hresume := remaining_resume_le ((r.extend more).skipBlanks.step symbols stack)
  simp only [List.length_cons, List.length_append] at hremaining hle
  omega

theorem remaining_readDatum_extend (hlined : Lined r.cursor.upcoming)
    (hincomplete : Incomplete (r.readDatum symbols stack).outcome)
    (hmore : ¬ Incomplete ((r.extend more).readDatum symbols stack).outcome) :
    ((r.extend more).readDatum symbols stack).reader.cursor.remaining < more.length := by
  fun_induction readDatum r symbols stack with
  | case1 r symbols stack hend =>
    have hskip : (r.extend more).skipBlanks.cursor.upcoming = Grammar.afterBlanks more := by
      rw [upcoming_skipBlanks_eq, extend, Cursor.upcoming_extend]
      apply (Grammar.afterBlanks_append (.inl hlined)).1
      rw [← upcoming_skipBlanks_eq]
      exact Cursor.atEnd_iff.mp hend
    have hle := Grammar.length_afterBlanks more
    rw [← hskip, Cursor.length_upcoming] at hle
    have hend' : ¬ (r.extend more).skipBlanks.cursor.atEnd = true := by
      intro hend'
      rw [readDatum, dif_pos hend'] at hmore
      exact hmore rfl
    exact Nat.lt_of_lt_of_le (remaining_readDatum_skipBlanks _ _ _ hend') hle
  | case2 r symbols stack hend d after symbols' hstep => exact absurd hincomplete id
  | case3 r symbols stack hend stack' after symbols' hstep ih =>
    rw [readDatum_extend_step (parted_skipBlanks hlined hend) hend (by rw [hstep]; exact id),
      hstep] at hmore ⊢
    exact ih (lined_of_step hlined hstep) hincomplete hmore
  | case4 r symbols stack hend e after symbols' hstep =>
    have hne := mt Cursor.atEnd_iff.mpr hend
    have hcut : Incomplete (r.skipBlanks.step symbols stack).outcome := by
      rw [hstep]
      exact hincomplete
    have hstring := string_of_step hcut
    obtain ⟨inside, k, hscan⟩ := (step_string hstring symbols stack).2.1.mp hcut
    exact remaining_string_extend hne hstring hscan hmore

def found (reading : Reading Datum) : Reading (Option Datum) :=
  ⟨reading.outcome.map some, reading.reader, reading.symbols⟩

theorem read_eq_found (hne : r.skipBlanks.cursor.upcoming ≠ []) (symbols : SymbolTable) :
    r.read symbols = found (r.readDatum symbols []) := by
  rw [read, if_neg (mt Cursor.atEnd_iff.mp hne)]
  rcases r.readDatum symbols [] with ⟨outcome, r', symbols'⟩
  cases outcome <;> rfl

theorem incomplete_found {reading : Reading Datum} :
    Incomplete (found reading).outcome ↔ Incomplete reading.outcome := by
  obtain ⟨outcome, r', symbols'⟩ := reading
  cases outcome <;> rfl

theorem read_at_end (h : r.skipBlanks.cursor.upcoming = []) (symbols : SymbolTable) :
    r.read symbols = ⟨.ok none, r.skipBlanks, symbols⟩ := by
  rw [read, if_pos (Cursor.atEnd_iff.mpr h)]

theorem grows_read (h : symbols.InOrder) (r : Reader) : symbols.Grows (r.read symbols).symbols := by
  by_cases hnext : r.skipBlanks.cursor.upcoming = []
  · rw [read_at_end hnext]
    exact h.grows_refl
  · rw [read_eq_found hnext]
    exact grows_readDatum h r []

theorem at_end_of_read (h : (r.read symbols).outcome = .ok none) :
    r.skipBlanks.cursor.upcoming = [] := by
  by_contra hne
  rw [read_eq_found hne] at h
  simp only [found] at h
  cases houtcome : (r.readDatum symbols []).outcome <;> simp [houtcome, Except.map] at h

theorem ne_nil_of_read (h : (r.read symbols).outcome ≠ .ok none) :
    r.skipBlanks.cursor.upcoming ≠ [] := by
  intro hend
  rw [read_at_end hend] at h
  exact h rfl

theorem ne_nil_of_incomplete (h : Incomplete (r.read symbols).outcome) :
    r.skipBlanks.cursor.upcoming ≠ [] := by
  intro hend
  rw [read_at_end hend] at h
  exact h

theorem extend_ne_nil (hne : r.skipBlanks.cursor.upcoming ≠ []) (more : List Char) :
    (r.extend more).skipBlanks.cursor.upcoming ≠ [] := by
  rw [skipBlanks_extend hne, extend, Cursor.upcoming_extend]
  exact List.append_ne_nil_of_left_ne_nil hne more

theorem read_extend (hlined : Lined r.cursor.upcoming)
    (hsome : (r.read symbols).outcome ≠ .ok none)
    (h : ¬ Incomplete (r.read symbols).outcome) (more : List Char) :
    (r.extend more).read symbols = (r.read symbols).extend more := by
  have hne := ne_nil_of_read hsome
  rw [read_eq_found hne, incomplete_found] at h
  rw [read_eq_found (extend_ne_nil hne more), read_eq_found hne, readDatum_extend hlined h]
  rfl

/-- Reading that ran into the end of its text comes with more text ahead to the same from the table
that it left. -/
theorem read_again (hsymbols : symbols.InOrder) (hlined : Lined r.cursor.upcoming)
    (h : Incomplete (r.read symbols).outcome) (more : List Char) :
    (r.extend more).read (r.read symbols).symbols = (r.extend more).read symbols := by
  have hne := ne_nil_of_incomplete h
  have hmore := extend_ne_nil hne more
  rw [read_eq_found hne, incomplete_found] at h
  rw [read_eq_found hmore, read_eq_found hmore, read_eq_found hne]
  exact congrArg found (readDatum_again hsymbols hlined h more)

theorem remaining_read_extend (hlined : Lined r.cursor.upcoming)
    (h : Incomplete (r.read symbols).outcome) (more : List Char)
    (hmore : ¬ Incomplete ((r.extend more).read symbols).outcome) :
    ((r.extend more).read symbols).reader.cursor.remaining < more.length := by
  have hne := ne_nil_of_incomplete h
  rw [read_eq_found hne, incomplete_found] at h
  rw [read_eq_found (extend_ne_nil hne more)] at hmore ⊢
  rw [incomplete_found] at hmore
  exact remaining_readDatum_extend hlined h hmore

variable {r' whole : Reader} {d : Datum}

theorem parse_congr (hr : r.Ready symbols) (hr' : r'.Ready symbols)
    (h : Grammar.afterBlanks r.cursor.upcoming = Grammar.afterBlanks r'.cursor.upcoming) :
    (r.read symbols).parse = (r'.read symbols).parse := by
  have hparse := hr.read_parse.1
  rw [Grammar.read_congr h, hr'.read_parse.1] at hparse
  exact (Option.some.inj hparse).symm

private theorem Ready.extend (h : r.Ready symbols) (more : List Char) :
    (r.extend more).Ready symbols :=
  ⟨h.inOrder, h.quotation⟩

/-- `whole` is at the same token as `r` would be with `more` behind its text. -/
structure Reads (whole r : Reader) (more : List Char) (symbols : SymbolTable) : Prop where
  ready : whole.Ready symbols
  partReady : r.Ready symbols
  lined : Lined r.cursor.upcoming
  text : Grammar.afterBlanks whole.cursor.upcoming = Grammar.afterBlanks (r.cursor.upcoming ++ more)

private theorem Reads.parse_eq (h : Reads whole r more symbols) :
    (whole.read symbols).parse = ((r.extend more).read symbols).parse := by
  apply parse_congr h.ready (h.partReady.extend more)
  rw [h.text, extend, Cursor.upcoming_extend]

private theorem lined_read (h : Lined r.cursor.upcoming) (symbols : SymbolTable) :
    Lined (r.read symbols).reader.cursor.upcoming :=
  keeps_read (P := fun c => Lined c.upcoming)
    (fun c hc => by rw [Cursor.upcoming_next]; exact hc.drop 1) h symbols

/-- A datum of a part of the text is the next datum of the whole text. -/
theorem Reads.datum (h : Reads whole r more symbols)
    (hread : r.read symbols = ⟨.ok (some d), r', symbols'⟩) :
    ∃ whole', whole.read symbols = ⟨.ok (some d), whole', symbols'⟩ ∧
      Reads whole' r' more symbols' ∧ whole'.cursor.upcoming = r'.cursor.upcoming ++ more := by
  have hextend : (r.extend more).read symbols = ⟨.ok (some d), r'.extend more, symbols'⟩ := by
    rw [read_extend h.lined (by simp [hread]) (by rw [hread]; exact id), hread]
    rfl
  have hparse := h.parse_eq
  have hwhole := h.ready.read_parse.2
  have hpart := h.partReady.read_parse.2
  have hlined := lined_read h.lined symbols
  rw [hread] at hpart hlined
  rw [hextend] at hparse
  rcases hreading : whole.read symbols with ⟨outcome, whole', symbols''⟩
  rw [hreading] at hparse hwhole
  obtain ⟨houtcome, hrest, rfl⟩ := Grammar.Parse.mk.inj hparse
  cases outcome with
  | error e => simp [Except.mapError] at houtcome
  | ok found =>
    obtain rfl : found = some d := by simpa [Except.mapError] using houtcome
    have hupcoming : whole'.cursor.upcoming = r'.cursor.upcoming ++ more := by
      rw [← Cursor.upcoming_extend]
      exact hrest
    exact ⟨whole', rfl, ⟨hwhole, hpart, hlined, by rw [hupcoming]⟩, hupcoming⟩

theorem Reads.error (h : Reads whole r more symbols) {e : ReadError}
    (hread : r.read symbols = ⟨.error e, r', symbols'⟩) (hincomplete : e.isIncomplete = false) :
    ∃ e' whole', whole.read symbols = ⟨.error e', whole', symbols'⟩ ∧ e'.kind = e.kind := by
  have hnot : ¬ Incomplete (r.read symbols).outcome := by
    rw [hread]
    simpa [Incomplete] using hincomplete
  have hextend : (r.extend more).read symbols = ⟨.error e, r'.extend more, symbols'⟩ := by
    rw [read_extend h.lined (by simp [hread]) hnot, hread]
    rfl
  have hparse := h.parse_eq
  rw [hextend] at hparse
  rcases hreading : whole.read symbols with ⟨outcome, whole', symbols''⟩
  rw [hreading] at hparse
  obtain ⟨houtcome, -, rfl⟩ := Grammar.Parse.mk.inj hparse
  cases outcome with
  | ok found => simp [Except.mapError] at houtcome
  | error e' => exact ⟨e', whole', rfl, by simpa [Except.mapError] using houtcome⟩

theorem Reads.blank (h : Reads whole r more symbols)
    (hread : (r.read symbols).outcome = .ok none) :
    Grammar.afterBlanks whole.cursor.upcoming = Grammar.afterBlanks more := by
  rw [h.text]
  apply (Grammar.afterBlanks_append (.inl h.lined)).1
  rw [← upcoming_skipBlanks_eq, at_end_of_read hread]

end Reader
end MiniScheme
