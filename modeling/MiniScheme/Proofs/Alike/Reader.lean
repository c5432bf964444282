import MiniScheme.Proofs.Alike.Tables
import MiniScheme.Proofs.Reader.Again
/-! # Alike readers

Readers of one text, each with its own table, come to alike data and to the same errors, as long as no
table is full. A reader holds on to one symbol, that of `quote`; it goes together with that of the
other reader from the first quotation on.
-/
namespace MiniScheme

variable {K : Terms} {L L' : Link K} {α : Type}

namespace Datum

def Plain : Datum → Prop
  | symbol _ => False
  | pair _ _ => False
  | _ => True

inductive Alike (L : Link K) : Datum → Datum → Prop
  | symbol {x y : Symbol} (h : L.symbol x y) : Alike L (symbol x) (symbol y)
  | pair {a a' b b' : Datum} (first : Alike L a a') (rest : Alike L b b') :
    Alike L (pair a b) (pair a' b')
  | plain {d : Datum} (h : d.Plain) : Alike L d d

variable {d d' : Datum}

theorem Alike.mono (hle : L ≤ L') (h : d.Alike L d') : d.Alike L' d' := by
  induction h with
  | symbol h => exact .symbol (hle.1 _ _ h)
  | pair _ _ ihf ihr => exact .pair ihf ihr
  | plain h => exact .plain h

private theorem Alike.consAll (h : d.Alike L d') {ds ds' : List Datum}
    (hds : List.Forall₂ (Alike L) ds ds') :
    (consAll d ds).Alike L (consAll d' ds') := by
  induction hds generalizing d d' with
  | nil => exact h
  | cons ha _ ih => exact ih (.pair ha h)

theorem Alike.assemble_build (h : d.Alike L d') {s s' : Store} (hs : s.Alike L s') :
    ∃ u u' v v', u.Alike L u' ∧ v.Alike L v' ∧
      (∀ ts vs, assemble s (.build d :: ts) vs = assemble u ts (v :: vs)) ∧
      ∀ ts vs, assemble s' (.build d' :: ts) vs = assemble u' ts (v' :: vs) := by
  induction h generalizing s s' with
  | symbol h =>
    exact ⟨s, s', _, _, hs, .symbol h, fun _ _ => by rw [assemble]; rfl; simp,
      fun _ _ => by rw [assemble]; rfl; simp⟩
  | pair _ _ ihf ihr =>
    obtain ⟨u₁, u₁', v₁, v₁', hu₁, hv₁, heq₁, heq₁'⟩ := ihf hs
    obtain ⟨u₂, u₂', v₂, v₂', hu₂, hv₂, heq₂, heq₂'⟩ := ihr hu₁
    obtain ⟨hv, hu⟩ := hu₂.cons hv₁ hv₂
    refine ⟨_, _, _, _, hu, hv, ?_, ?_⟩
    · intro ts vs
      rw [assemble, heq₁, heq₂, assemble]
    · intro ts vs
      rw [assemble, heq₁', heq₂', assemble]
  | @plain d h =>
    have hatom (s : Store) (ts : List Task) (vs : List Value) :
        assemble s (.build d :: ts) vs = assemble s ts (d.atomValue :: vs) := by
      rw [assemble]
      rintro first rest rfl
      exact h
    refine ⟨s, s', _, _, hs, ?_, hatom s, hatom s'⟩
    cases d with
    | symbol x => exact h.elim
    | pair first rest => exact h.elim
    | _ => exact .same trivial

end Datum

theorem Store.Alike.load {s s' : Store} (h : s.Alike L s') {d d' : Datum} (hd : d.Alike L d') :
    (s.load d).1.Alike L (s'.load d').1 ∧ (s.load d).2.Alike L (s'.load d').2 := by
  obtain ⟨u, u', v, v', hu, hv, heq, heq'⟩ := hd.assemble_build h
  rw [Store.load, Store.load, heq, heq', Datum.assemble, Datum.assemble]
  exact ⟨hv, hu⟩

structure Reader.Alike (L : Link K) (r r' : Reader) : Prop where
  cursor : r'.cursor = r.cursor
  quotation : Option.Rel L.symbol r.quotation r'.quotation

/-- A reading with another one, under the link of the tables that they leave. -/
structure Reading.Alike (L : Link K) (P : Link K → α → α → Prop) (x y : Reading α) : Prop where
  outcome : Answer (fun _ => True) (P L) x.outcome y.outcome
  reader : x.reader.Alike L y.reader
  symbols : L.Reads x.symbols y.symbols

/-- The reading failed for want of room in the table. -/
def Reading.Full (x : Reading α) : Prop := ∃ e, x.outcome = .error (.symbolTable e)

@[simp] theorem Reading.not_full_ok (a : α) (r : Reader) (t : SymbolTable) :
    ¬ Reading.Full ⟨.ok a, r, t⟩ := by
  simp [Full]

@[simp] theorem Reading.full_error (e : ReadError) (r : Reader) (t : SymbolTable) :
    Reading.Full (⟨.error e, r, t⟩ : Reading α) ↔ ∃ cause, e = .symbolTable cause := by
  simp [Full]

/-- There is one table only, or room in both. -/
def Reading.Room {β : Type} (K : Terms) (x y : Reading β) : Prop := K.strict ∨ (¬ x.Full ∧ ¬ y.Full)

private theorem Reading.Room.of_imp {β : Type} {x y : Reading α} {x' y' : Reading β}
    (h : Reading.Room K x y)
    (hx : x'.Full → x.Full) (hy : y'.Full → y.Full) : Reading.Room K x' y' :=
  h.imp id fun hfull => ⟨fun h => hfull.1 (hx h), fun h => hfull.2 (hy h)⟩

namespace Reader

inductive Unclosed.Alike (L : Link K) : Unclosed → Unclosed → Prop
  | quotation : Alike L .quotation .quotation
  | list {ds ds' : List Datum} (h : List.Forall₂ (Datum.Alike L) ds ds') :
    Alike L (.list ds) (.list ds')
  | dotted {ds ds' : List Datum} (h : List.Forall₂ (Datum.Alike L) ds ds') :
    Alike L (.dotted ds) (.dotted ds')
  | ended {ds ds' : List Datum} {d d' : Datum} (h : List.Forall₂ (Datum.Alike L) ds ds')
    (htail : d.Alike L d') : Alike L (.ended ds d) (.ended ds' d')

abbrev Stack (L : Link K) : List Unclosed → List Unclosed → Prop := List.Forall₂ (Unclosed.Alike L)

inductive Progress.Alike (L : Link K) : Progress → Progress → Prop
  | finished {d d' : Datum} (h : d.Alike L d') : Alike L (.finished d) (.finished d')
  | inside {stack stack' : List Unclosed} (h : Stack L stack stack') :
    Alike L (.inside stack) (.inside stack')

theorem Unclosed.Alike.mono (hle : L ≤ L') {u u' : Unclosed} (h : u.Alike L u') :
    u.Alike L' u' := by
  cases h with
  | quotation => exact .quotation
  | list h => exact .list (h.imp fun _ _ => .mono hle)
  | dotted h => exact .dotted (h.imp fun _ _ => .mono hle)
  | ended h htail => exact .ended (h.imp fun _ _ => .mono hle) (htail.mono hle)

theorem Stack.mono (hle : L ≤ L') {stack stack' : List Unclosed} (h : Stack L stack stack') :
    Stack L' stack stack' :=
  h.imp fun _ _ => .mono hle

theorem alike_ofString (L : Link K) (source : String) :
    (ofString source).Alike L (ofString source) :=
  ⟨rfl, .none⟩

theorem Alike.mono (hle : L ≤ L') {r r' : Reader} (h : r.Alike L r') : r.Alike L' r' := by
  obtain ⟨cursor, quotation⟩ := r
  obtain ⟨cursor', quotation'⟩ := r'
  obtain ⟨hcursor, hquotation⟩ := h
  refine ⟨hcursor, ?_⟩
  cases hquotation with
  | some h => exact .some (hle.1 _ _ h)
  | none => exact .none

variable {r r' : Reader} {t t' : SymbolTable}

private theorem Alike.quoteSymbol (hr : r.Alike L r') (ht : L.Reads t t')
    (hroom : Reading.Room K (r.quoteSymbol t) (r'.quoteSymbol t')) :
    ∃ L', L.Interns L' ∧
      (r.quoteSymbol t).Alike L' Link.symbol (r'.quoteSymbol t') := by
  obtain ⟨cursor, quotation⟩ := r
  obtain ⟨cursor', quotation'⟩ := r'
  obtain ⟨rfl, hquotation⟩ := hr
  cases hquotation with
  | some hx => exact ⟨L, .refl L, .ok hx, ⟨rfl, .some hx⟩, ht⟩
  | none =>
    have hfull {t : SymbolTable} {e : SymbolTableError} (he : (t.intern "quote").1 = .error e) :
        (Reader.quoteSymbol ⟨cursor', none⟩ t).Full := by
      simp only [Reader.quoteSymbol]
      generalize t.intern "quote" = interned at he ⊢
      obtain ⟨answer, u⟩ := interned
      obtain rfl : answer = .error e := he
      exact ⟨e, rfl⟩
    have hagree : Link.Agree K t t' "quote" := Link.agree_of_ne_error <|
      hroom.imp id fun h => ⟨fun _ he => h.1 (hfull he), fun _ he => h.2 (hfull he)⟩
    obtain ⟨L', hinterns, hreads, hanswer⟩ := ht.intern hagree
    refine ⟨L', hinterns, ?_⟩
    simp only [Reader.quoteSymbol]
    generalize t.intern "quote" = interned at hreads hanswer
    generalize t'.intern "quote" = interned' at hreads hanswer
    obtain ⟨answer, u⟩ := interned
    obtain ⟨answer', u'⟩ := interned'
    cases hanswer with
    | ok hx => exact ⟨.ok hx, ⟨rfl, .some hx⟩, hreads⟩
    | error _ => exact ⟨.error trivial, ⟨rfl, .none⟩, hreads⟩

private theorem full_complete_of_quoteSymbol {stack : List Unclosed} {d : Datum}
    (h : (r.quoteSymbol t).Full) : (r.complete t (.quotation :: stack) d).Full := by
  obtain ⟨e, he⟩ := h
  rw [complete]
  rcases hquote : r.quoteSymbol t with ⟨outcome, after, u⟩
  rw [hquote] at he
  obtain rfl : outcome = _ := he
  exact ⟨e, rfl⟩

private theorem Alike.complete (hr : r.Alike L r') (ht : L.Reads t t')
    {stack stack' : List Unclosed}
    (hstack : Stack L stack stack') {d d' : Datum} (hd : d.Alike L d')
    (hroom : Reading.Room K (r.complete t stack d) (r'.complete t' stack' d')) :
    ∃ L', L.Interns L' ∧
      (r.complete t stack d).Alike L' Progress.Alike (r'.complete t' stack' d') := by
  induction stack generalizing L r r' t t' stack' d d' with
  | nil =>
    cases hstack
    exact ⟨L, .refl L, .ok (.finished hd), hr, ht⟩
  | cons form stack ih =>
    obtain _ | ⟨hform, hstack⟩ := hstack
    cases hform with
    | list h => exact ⟨L, .refl L, .ok (.inside (.cons (.list (.cons hd h)) hstack)), hr, ht⟩
    | dotted h => exact ⟨L, .refl L, .ok (.inside (.cons (.ended h hd) hstack)), hr, ht⟩
    | ended h htail =>
      refine ⟨L, .refl L, ?_, hr, ht⟩
      simp only [Reader.complete, hr.cursor]
      exact .error trivial
    | quotation =>
      obtain ⟨L₁, hinterns, hquote⟩ := hr.quoteSymbol ht
        (hroom.of_imp full_complete_of_quoteSymbol full_complete_of_quoteSymbol)
      rw [Reader.complete, Reader.complete] at hroom ⊢
      rcases hx : r.quoteSymbol t with ⟨outcome, after, u⟩
      rcases hy : r'.quoteSymbol t' with ⟨outcome', after', u'⟩
      rw [hx, hy] at hquote
      rw [hx, hy] at hroom
      obtain ⟨houtcome, hafter, hu⟩ := hquote
      cases houtcome with
      | error _ => exact ⟨L₁, hinterns, .error trivial, hafter, hu⟩
      | ok hsymbol =>
        have hlist : (Datum.pair (.symbol _) (.pair d .nil)).Alike L₁
            (.pair (.symbol _) (.pair d' .nil)) :=
          .pair (.symbol hsymbol) (.pair (hd.mono hinterns.le) (.plain trivial))
        obtain ⟨L₂, hinterns', hcomplete⟩ :=
          ih hafter hu (Stack.mono hinterns.le hstack) hlist hroom
        exact ⟨L₂, hinterns.trans hinterns', hcomplete⟩

private theorem close_alike (line : Nat) {stack stack' : List Unclosed} (h : Stack L stack stack') :
    Answer (fun _ => True) (fun p p' => p.1.Alike L p'.1 ∧ Stack L p.2 p'.2) (close line stack)
      (close line stack') := by
  cases h with
  | nil => exact .error trivial
  | cons hform hstack =>
    cases hform with
    | quotation => exact .error trivial
    | list h =>
      have hnil : Datum.Alike L .nil .nil := .plain trivial
      exact .ok ⟨hnil.consAll h, hstack⟩
    | dotted h => exact .error trivial
    | ended h htail => exact .ok ⟨htail.consAll h, hstack⟩

private theorem dot_alike (line : Nat) {stack stack' : List Unclosed} (h : Stack L stack stack') :
    Answer (fun _ => True) (Stack L) (dot line stack) (dot line stack') := by
  cases h with
  | nil => exact .error trivial
  | cons hform hstack =>
    cases hform with
    | quotation => exact .error trivial
    | list h =>
      cases h with
      | nil => exact .error trivial
      | cons hd h => exact .ok (.cons (.dotted (.cons hd h)) hstack)
    | dotted h => exact .error trivial
    | ended h htail => exact .error trivial

private theorem unfinished_eq {stack stack' : List Unclosed} (h : Stack L stack stack') :
    unfinished stack' = unfinished stack := by
  cases h with
  | nil => rfl
  | cons hform hstack => cases hform <;> rfl

private theorem plain_of_parseNumber? {token : List Char} {d : Datum}
    (h : parseNumber? token = some d) :
    d.Plain := by
  unfold parseNumber? at h
  dsimp only at h
  split at h
  · split at h
    · simp at h
    · obtain ⟨n, -, rfl⟩ := Option.map_eq_some_iff.mp h
      trivial
  · split at h
    · obtain rfl := Option.some.inj h
      trivial
    · simp at h
  · simp at h

def AtomRead.Full (x : AtomRead) : Prop := ∃ e, x.outcome = .error (.symbolTable e)

structure AtomRead.Alike (L : Link K) (x y : AtomRead) : Prop where
  outcome : Answer (fun _ => True) (Datum.Alike L) x.outcome y.outcome
  cursor : y.cursor = x.cursor
  symbols : L.Reads x.symbols y.symbols

private theorem full_readSymbol {c : Text.Cursor} (htoken : ¬ c.readToken.1.isEmpty = true)
    {e : SymbolTableError} (he : (t.intern (String.ofList c.readToken.1)).1 = .error e) :
    (readSymbol c t).Full := by
  simp only [readSymbol, if_neg htoken]
  generalize t.intern (String.ofList c.readToken.1) = interned at he ⊢
  obtain ⟨answer, u⟩ := interned
  obtain rfl : answer = .error e := he
  exact ⟨e, rfl⟩

private theorem readSymbol_alike (ht : L.Reads t t') (c : Text.Cursor)
    (hroom : K.strict ∨ (¬ (readSymbol c t).Full ∧ ¬ (readSymbol c t').Full)) :
    ∃ L', L.Interns L' ∧ (readSymbol c t).Alike L' (readSymbol c t') := by
  by_cases htoken : c.readToken.1.isEmpty = true
  · simp only [readSymbol, if_pos htoken]
    exact ⟨L, .refl L, .error trivial, rfl, ht⟩
  · have hagree : Link.Agree K t t' (String.ofList c.readToken.1) := Link.agree_of_ne_error <|
      hroom.imp id fun h =>
        ⟨fun _ he => h.1 (full_readSymbol htoken he), fun _ he => h.2 (full_readSymbol htoken he)⟩
    obtain ⟨L', hinterns, hreads, hanswer⟩ := ht.intern hagree
    refine ⟨L', hinterns, ?_⟩
    simp only [readSymbol, if_neg htoken]
    generalize t.intern (String.ofList c.readToken.1) = interned at hreads hanswer
    generalize t'.intern (String.ofList c.readToken.1) = interned' at hreads hanswer
    obtain ⟨answer, u⟩ := interned
    obtain ⟨answer', u'⟩ := interned'
    cases hanswer with
    | ok hx => exact ⟨.ok (.symbol hx), rfl, hreads⟩
    | error _ => exact ⟨.error trivial, rfl, hreads⟩

private theorem readAtom_alike (ht : L.Reads t t') (c : Text.Cursor)
    (hroom : K.strict ∨ (¬ (readAtom c t).Full ∧ ¬ (readAtom c t').Full)) :
    ∃ L', L.Interns L' ∧ (readAtom c t).Alike L' (readAtom c t') := by
  have hplain (outcome : Except ReadError Datum) (h : ∀ d, outcome = .ok d → d.Plain) :
      Answer (fun _ => True) (Datum.Alike L) outcome outcome := by
    cases outcome with
    | ok d => exact .ok (.plain (h d rfl))
    | error e => exact .error trivial
  unfold readAtom at hroom ⊢
  split_ifs at hroom ⊢
  · refine ⟨L, .refl L, hplain _ ?_, rfl, ht⟩
    intro d hd
    simp only [readString] at hd
    split at hd
    · obtain rfl := Except.ok.inj hd
      trivial
    · simp at hd
    · simp at hd
  · refine ⟨L, .refl L, hplain _ ?_, rfl, ht⟩
    intro d hd
    simp only [readHash] at hd
    split at hd
    · obtain rfl := Except.ok.inj hd
      trivial
    · simp at hd
  · refine ⟨L, .refl L, hplain _ ?_, rfl, ht⟩
    intro d hd
    simp only [readNumber] at hd
    split at hd
    · next hnumber =>
      obtain rfl := Except.ok.inj hd
      exact plain_of_parseNumber? hnumber
    · simp at hd
  · exact readSymbol_alike ht c hroom

private theorem Alike.step (hr : r.Alike L r') (ht : L.Reads t t') {stack stack' : List Unclosed}
    (hstack : Stack L stack stack') (hroom : Reading.Room K (r.step t stack) (r'.step t' stack')) :
    ∃ L', L.Interns L' ∧ (r.step t stack).Alike L' Progress.Alike (r'.step t' stack') := by
  obtain ⟨cursor, quotation⟩ := r
  obtain ⟨cursor', quotation'⟩ := r'
  obtain ⟨rfl, hquotation⟩ := hr
  have hmoved (c : Text.Cursor) : Reader.Alike L ⟨c, quotation⟩ ⟨c, quotation'⟩ := ⟨rfl, hquotation⟩
  unfold Reader.step at hroom ⊢
  dsimp only at hroom hquotation hmoved ⊢
  split_ifs at hroom ⊢
  · exact ⟨L, .refl L, .ok (.inside (.cons (.list .nil) hstack)), hmoved _, ht⟩
  · exact ⟨L, .refl L, .ok (.inside (.cons .quotation hstack)), hmoved _, ht⟩
  · have hclose := close_alike cursor'.line hstack
    generalize close cursor'.line stack = closed at hclose hroom ⊢
    generalize close cursor'.line stack' = closed' at hclose hroom ⊢
    cases hclose with
    | ok h => exact (hmoved _).complete ht h.2 h.1 hroom
    | error _ => exact ⟨L, .refl L, .error trivial, hmoved _, ht⟩
  · have hdot := dot_alike cursor'.line hstack
    generalize dot cursor'.line stack = opened at hdot hroom ⊢
    generalize dot cursor'.line stack' = opened' at hdot hroom ⊢
    cases hdot with
    | ok h => exact ⟨L, .refl L, .ok (.inside h), hmoved _, ht⟩
    | error _ => exact ⟨L, .refl L, .error trivial, hmoved _, ht⟩
  · rcases hx : readAtom cursor' t with ⟨outcome, after, u⟩
    rcases hy : readAtom cursor' t' with ⟨outcome', after', u'⟩
    rw [hx, hy] at hroom
    have hatom : K.strict ∨ (¬ (readAtom cursor' t).Full ∧ ¬ (readAtom cursor' t').Full) := by
      refine hroom.imp id ?_
      rintro ⟨hfull, hfull'⟩
      rw [hx, hy]
      refine ⟨?_, ?_⟩
      · rintro ⟨e, he⟩
        obtain rfl : outcome = _ := he
        exact hfull ⟨e, rfl⟩
      · rintro ⟨e, he⟩
        obtain rfl : outcome' = _ := he
        exact hfull' ⟨e, rfl⟩
    obtain ⟨L₁, hinterns, hatom⟩ := readAtom_alike ht cursor' hatom
    rw [hx, hy] at hatom
    obtain ⟨houtcome, rfl, hu⟩ := hatom
    cases houtcome with
    | ok hd =>
      obtain ⟨L₂, hinterns', hcomplete⟩ :=
        ((hmoved after').mono hinterns.le).complete hu (Stack.mono hinterns.le hstack) hd hroom
      exact ⟨L₂, hinterns.trans hinterns', hcomplete⟩
    | error _ => exact ⟨L₁, hinterns, .error trivial, (hmoved _).mono hinterns.le, hu⟩

private theorem Alike.skipBlanks (hr : r.Alike L r') : r.skipBlanks.Alike L r'.skipBlanks :=
  ⟨by rw [Reader.skipBlanks, Reader.skipBlanks, hr.cursor], hr.quotation⟩

private theorem readDatum_of_not_atEnd (hend : ¬ r.skipBlanks.cursor.atEnd = true)
    (stack : List Unclosed) : r.readDatum t stack = resume (r.skipBlanks.step t stack) := by
  rw [readDatum, dif_neg hend]
  split <;> rename_i heq <;> rw [heq] <;> rfl

private theorem full_resume {x : Reading Progress} (h : x.Full) : (resume x).Full := by
  obtain ⟨outcome, after, u⟩ := x
  obtain ⟨e, rfl⟩ := h
  exact ⟨e, rfl⟩

private theorem Alike.readDatum (hr : r.Alike L r') (ht : L.Reads t t')
    {stack stack' : List Unclosed} (hstack : Stack L stack stack')
    (hroom : Reading.Room K (r.readDatum t stack) (r'.readDatum t' stack')) :
    ∃ L', L.Interns L' ∧ (r.readDatum t stack).Alike L' Datum.Alike (r'.readDatum t' stack') := by
  -- The readers take their steps together; each step leaves less of the text.
  induction hn : r.cursor.remaining using Nat.strongRecOn
    generalizing L r r' t t' stack stack' with
  | ind n ih =>
    have hblank := hr.skipBlanks
    by_cases hend : r.skipBlanks.cursor.atEnd = true
    · have hend' : r'.skipBlanks.cursor.atEnd = true := by rw [hblank.cursor]; exact hend
      refine ⟨L, .refl L, ?_⟩
      rw [Reader.readDatum, dif_pos hend, Reader.readDatum, dif_pos hend', unfinished_eq hstack,
        hblank.cursor]
      exact ⟨.error trivial, hblank, ht⟩
    · have hend' : ¬ r'.skipBlanks.cursor.atEnd = true := by rw [hblank.cursor]; exact hend
      have hless := remaining_step_skipBlanks r t stack hend
      rw [readDatum_of_not_atEnd hend, readDatum_of_not_atEnd hend'] at hroom ⊢
      obtain ⟨L₁, hinterns, hstep⟩ :=
        hblank.step ht hstack (hroom.of_imp full_resume full_resume)
      generalize r.skipBlanks.step t stack = x at hless hroom hstep ⊢
      generalize r'.skipBlanks.step t' stack' = y at hroom hstep ⊢
      obtain ⟨outcome, after, u⟩ := x
      obtain ⟨outcome', after', u'⟩ := y
      obtain ⟨houtcome, hafter, hu⟩ := hstep
      cases houtcome with
      | error _ => exact ⟨L₁, hinterns, .error trivial, hafter, hu⟩
      | ok hprogress =>
        cases hprogress with
        | finished hd => exact ⟨L₁, hinterns, .ok hd, hafter, hu⟩
        | inside hinside =>
          obtain ⟨L₂, hinterns', hread⟩ := ih _ (hn ▸ hless) hafter hu hinside hroom rfl
          exact ⟨L₂, hinterns.trans hinterns', hread⟩

/-- Reading the next datum of one text with two tables. -/
theorem full_read (hend : ¬ r.skipBlanks.cursor.atEnd = true) (h : (r.readDatum t []).Full) :
    (r.read t).Full := by
  obtain ⟨e, he⟩ := h
  simp only [Reader.read, if_neg hend]
  generalize r.readDatum t [] = x at he ⊢
  obtain ⟨outcome, after, u⟩ := x
  obtain rfl : outcome = _ := he
  exact ⟨e, rfl⟩

theorem Alike.read (hr : r.Alike L r') (ht : L.Reads t t')
    (hroom : Reading.Room K (r.read t) (r'.read t')) :
    ∃ L', L.Interns L' ∧
      (r.read t).Alike L' (fun L => Option.Rel (Datum.Alike L)) (r'.read t') := by
  have hblank := hr.skipBlanks
  have hend : r'.skipBlanks.cursor.atEnd = r.skipBlanks.cursor.atEnd := by rw [hblank.cursor]
  by_cases h : r.skipBlanks.cursor.atEnd = true
  · simp only [Reader.read, if_pos h, if_pos (hend.trans h)]
    exact ⟨L, .refl L, .ok .none, hblank, ht⟩
  · have h' : ¬ r'.skipBlanks.cursor.atEnd = true := by rwa [hend]
    obtain ⟨L', hinterns, hread⟩ :=
      hr.readDatum ht .nil (hroom.of_imp (full_read h) (full_read h'))
    simp only [Reader.read, if_neg h, if_neg h']
    refine ⟨L', hinterns, ?_⟩
    generalize r.readDatum t [] = x at hread ⊢
    generalize r'.readDatum t' [] = y at hread ⊢
    obtain ⟨outcome, after, u⟩ := x
    obtain ⟨outcome', after', u'⟩ := y
    obtain ⟨houtcome, hafter, hu⟩ := hread
    cases houtcome with
    | ok hd => exact ⟨.ok (.some hd), hafter, hu⟩
    | error _ => exact ⟨.error trivial, hafter, hu⟩

/-! A reading that failed for want of room has left a table that may not grow. -/

private theorem not_canGrow_quoteSymbol (h : t.InOrder) (hfull : (r.quoteSymbol t).Full) :
    ¬ (r.quoteSymbol t).symbols.CanGrow := by
  unfold Reader.quoteSymbol at hfull ⊢
  split at hfull
  · simp at hfull
  · split at hfull
    · simp at hfull
    · next hintern => exact h.not_canGrow_of_intern hintern

private theorem not_canGrow_complete (h : t.InOrder) {stack : List Unclosed} {d : Datum}
    (hfull : (r.complete t stack d).Full) : ¬ (r.complete t stack d).symbols.CanGrow := by
  induction stack generalizing r t d with
  | nil => simp [Reader.complete] at hfull
  | cons form stack ih =>
    cases form with
    | quotation =>
      have hgrows := grows_quoteSymbol h r
      have hquote := not_canGrow_quoteSymbol (r := r) h
      rw [Reader.complete] at hfull ⊢
      rcases hread : r.quoteSymbol t with ⟨outcome, after, u⟩
      rw [hread] at hfull hgrows hquote
      cases outcome with
      | ok x => exact ih hgrows.inOrder hfull
      | error e =>
        apply hquote
        simpa using hfull
    | _ => simp [Reader.complete] at hfull

private theorem not_canGrow_readAtom (h : t.InOrder) {c : Text.Cursor}
    (hfull : (readAtom c t).Full) :
    ¬ (readAtom c t).symbols.CanGrow := by
  obtain ⟨e, he⟩ := hfull
  unfold readAtom at he ⊢
  split_ifs at he ⊢
  · simp only [readString] at he
    split at he <;> simp at he
  · simp only [readHash] at he
    split at he <;> simp at he
  · simp only [readNumber] at he
    split at he <;> simp at he
  · unfold readSymbol at he ⊢
    dsimp only at he ⊢
    split_ifs at he ⊢
    · simp at he
    · split at he
      · simp at he
      · next hintern => exact h.not_canGrow_of_intern hintern

private theorem not_canGrow_step (h : t.InOrder) {stack : List Unclosed}
    (hfull : (r.step t stack).Full) :
    ¬ (r.step t stack).symbols.CanGrow := by
  have hgrows := grows_readAtom h r.cursor
  have hatom := not_canGrow_readAtom (c := r.cursor) h
  have hstep := stepsTo r t stack
  generalize r.step t stack = reading at hstep hfull ⊢
  cases hstep with
  | opened | quoted | dotted => simp at hfull
  | closed => exact not_canGrow_complete h hfull
  | unclosed _ hclose =>
    obtain ⟨cause, rfl⟩ := by simpa using hfull
    rcases close_error hclose with h | h <;> cases h
  | misplaced _ hdot =>
    obtain ⟨cause, rfl⟩ := by simpa using hfull
    rcases dot_error hdot with h | h <;> cases h
  | atom _ hread =>
    rw [hread] at hgrows
    exact not_canGrow_complete hgrows.inOrder hfull
  | noAtom _ hread =>
    rw [hread] at hatom
    obtain ⟨cause, rfl⟩ := by simpa using hfull
    exact hatom ⟨cause, rfl⟩

private theorem not_canGrow_readDatum (h : t.InOrder) {stack : List Unclosed}
    (hfull : (r.readDatum t stack).Full) : ¬ (r.readDatum t stack).symbols.CanGrow := by
  have hstep {r after : Reader} {t t' : SymbolTable} {stack : List Unclosed}
      {outcome : Except ReadError Progress} (h : t.InOrder)
      (heq : r.skipBlanks.step t stack = ⟨outcome, after, t'⟩) :
      t.Grows t' ∧ (Reading.Full ⟨outcome, after, t'⟩ → ¬ t'.CanGrow) := by
    have hgrows := grows_step h r.skipBlanks stack
    have hstep : (r.skipBlanks.step t stack).Full → ¬ (r.skipBlanks.step t stack).symbols.CanGrow :=
      not_canGrow_step h
    rw [heq] at hgrows hstep
    exact ⟨hgrows, hstep⟩
  fun_induction Reader.readDatum r t stack with
  | case1 r t stack hend => simp at hfull
  | case2 r t stack hend d after t' heq => simp at hfull
  | case3 r t stack hend stack' after t' heq ih => exact ih (hstep h heq).1.inOrder hfull
  | case4 r t stack hend e after t' heq =>
    apply (hstep h heq).2
    simpa using hfull

theorem not_canGrow_of_full (h : t.InOrder) (hfull : (r.read t).Full) :
    ¬ (r.read t).symbols.CanGrow := by
  have hdatum : (r.readDatum t []).Full → ¬ (r.readDatum t []).symbols.CanGrow :=
    not_canGrow_readDatum h
  unfold Reader.read at hfull ⊢
  split_ifs at hfull ⊢
  · simp at hfull
  · generalize r.readDatum t [] = x at hfull hdatum ⊢
    obtain ⟨outcome, after, u⟩ := x
    cases outcome with
    | ok d => simp at hfull
    | error e =>
      apply hdatum
      simpa using hfull

end Reader
end MiniScheme
