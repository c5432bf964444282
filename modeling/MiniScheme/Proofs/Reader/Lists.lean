import MiniScheme.Proofs.Printer.Walk
import MiniScheme.Proofs.Reader.Atom
import MiniScheme.Proofs.Reader.Steps
/-! # Trees read back from their text

The reader keeps the lists it is inside of on a stack. From the text of a tree it hands the datum of
that tree to the innermost of them, and from the text that follows an element it completes the list.
-/
namespace MiniScheme

namespace Reader

open MiniScheme.Text

variable {r : Reader} {symbols : SymbolTable} {stack : List Unclosed} {cs after : List Char}

def resume (reading : Reading Progress) : Reading Datum :=
  match reading with
  | ⟨.ok (.finished d), r, symbols⟩ => ⟨.ok d, r, symbols⟩
  | ⟨.ok (.inside stack), r, symbols⟩ => r.readDatum symbols stack
  | ⟨.error e, r, symbols⟩ => ⟨.error e, r, symbols⟩

theorem readDatum_eq_resume {ch : Char} (h : r.skipBlanks.cursor.upcoming = ch :: cs) :
    r.readDatum symbols stack = resume (r.skipBlanks.step symbols stack) := by
  have hend : ¬ r.skipBlanks.cursor.atEnd = true := by simp [Cursor.atEnd_eq, h]
  rw [readDatum, dif_neg hend]
  split <;> rename_i hstep <;> rw [hstep] <;> rfl

/-- The text begins with neither a blank nor a comment. -/
def Begins (cs : List Char) : Prop := ∃ ch rest, cs = ch :: rest ∧ isBlank ch = false ∧ ch ≠ ';'

theorem upcoming_skipBlanks (h : r.cursor.upcoming = cs) (hbegins : Begins cs) :
    r.skipBlanks.cursor.upcoming = cs := by
  obtain ⟨ch, rest, rfl, hblank, hcomment⟩ := hbegins
  rw [skipBlanks, Cursor.skipBlanks, Cursor.upcoming_advance, h]
  simp [Cursor.blankLength, hblank, hcomment]

private theorem upcoming_skipBlanks_blank (h : r.cursor.upcoming = ' ' :: cs)
    (hbegins : Begins cs) :
    r.skipBlanks.cursor.upcoming = cs := by
  obtain ⟨ch, rest, rfl, hblank, hcomment⟩ := hbegins
  have hspace : isBlank ' ' = true := by decide
  rw [skipBlanks, Cursor.skipBlanks, Cursor.upcoming_advance, h]
  simp [Cursor.blankLength, hspace, hblank, hcomment]

def moved (r : Reader) : Reader := { r with cursor := r.cursor.next.2 }

theorem upcoming_moved {ch : Char} (h : r.cursor.upcoming = ch :: cs) :
    r.moved.cursor.upcoming = cs := by
  rw [moved, Cursor.upcoming_next, h]
  rfl

theorem readDatum_open (h : r.skipBlanks.cursor.upcoming = '(' :: cs) :
    r.readDatum symbols stack = r.skipBlanks.moved.readDatum symbols (.list [] :: stack) := by
  rw [readDatum_eq_resume h, (StepsTo.opened (Cursor.peek_of_upcoming h)).eq]
  rfl

theorem readDatum_quote (h : r.skipBlanks.cursor.upcoming = '\'' :: cs) :
    r.readDatum symbols stack = r.skipBlanks.moved.readDatum symbols (.quotation :: stack) := by
  rw [readDatum_eq_resume h, (StepsTo.quoted (Cursor.peek_of_upcoming h)).eq]
  rfl

theorem readDatum_close (h : r.skipBlanks.cursor.upcoming = ')' :: cs) {d : Datum}
    {stack' : List Unclosed} (hclose : ∀ line, close line stack = .ok (d, stack')) :
    r.readDatum symbols stack = resume (r.skipBlanks.moved.complete symbols stack' d) := by
  rw [readDatum_eq_resume h, (StepsTo.closed (Cursor.peek_of_upcoming h) (hclose _)).eq]
  rfl

private theorem readDatum_dot (h : r.skipBlanks.cursor.upcoming = '.' :: ' ' :: cs) {d : Datum}
    {reversed : List Datum} :
    r.readDatum symbols (.list (d :: reversed) :: stack) =
      r.skipBlanks.moved.readDatum symbols (.dotted (d :: reversed) :: stack) := by
  have hdot : r.skipBlanks.cursor.nextIsLoneDot = true := by
    rw [Cursor.nextIsLoneDot, h]
    rfl
  rw [readDatum_eq_resume h, (StepsTo.dotted hdot rfl).eq]
  rfl

theorem readDatum_atom {s : Store} {v : Value} (hv : Readable symbols v) (hnil : v ≠ .nil)
    (hafter : Ends after)
    (h : r.skipBlanks.cursor.upcoming = (Printer.atomText s .written v).toList ++ after) :
    ∃ r' : Reader, r'.cursor.upcoming = after ∧ r'.quotation = r.quotation ∧
      r.readDatum symbols stack = resume (r'.complete symbols stack (.ofAtom v)) := by
  obtain ⟨ch, cs, htext, hch, hdot⟩ := atomText_start hv hnil (s := s) after
  obtain ⟨c', hc', hread⟩ := readAtom_atomText hv hnil h hafter
  have hpeek : r.skipBlanks.cursor.peek = ch := Cursor.peek_of_upcoming (h.trans htext)
  have hne : ∀ d, isDelimiter d = true → d ≠ '"' → ¬ r.skipBlanks.cursor.peek = d := by
    intro d hd hquote
    rw [hpeek]
    rcases hch with rfl | hch
    · exact hquote.symm
    · exact (ne_of_isDelimiter hd hch).symm
  have hatom : AtAtom r.skipBlanks.cursor := by
    refine ⟨hne '(' rfl (by decide), hne '\'' rfl (by decide), hne ')' rfl (by decide), ?_⟩
    rw [Cursor.nextIsLoneDot, h, htext, hdot]
  refine ⟨{ r.skipBlanks with cursor := c' }, hc', rfl, ?_⟩
  rw [readDatum_eq_resume (h.trans htext), (StepsTo.atom hatom hread).eq]

/-- From this text, whatever follows, the datum is handed to the innermost open form. -/
def ReadsValue (symbols : SymbolTable) (text : List Char) (d : Datum) : Prop :=
  ∀ (r : Reader) (stack : List Unclosed) (after : List Char), Ends after →
    r.skipBlanks.cursor.upcoming = text ++ after →
    ∃ r' : Reader, r'.cursor.upcoming = after ∧ r'.quotation = r.quotation ∧
      r.readDatum symbols stack = resume (r'.complete symbols stack d)

/-- From this text, inside a list that has elements, the list is completed with the datum as its
tail. -/
def ReadsRest (symbols : SymbolTable) (text : List Char) (d : Datum) : Prop :=
  ∀ (r : Reader) (reversed : List Datum) (stack : List Unclosed) (after : List Char),
    reversed ≠ [] → r.cursor.upcoming = text ++ after →
    ∃ r' : Reader, r'.cursor.upcoming = after ∧ r'.quotation = r.quotation ∧
      r.readDatum symbols (.list reversed :: stack) =
        resume (r'.complete symbols stack (Datum.consAll d reversed))

theorem begins_close (cs : List Char) : Begins (')' :: cs) := ⟨')', cs, rfl, rfl, by decide⟩

theorem readsValue_nil : ReadsValue symbols ['(', ')'] .nil := by
  intro r stack after _ h
  have hclosing : r.skipBlanks.moved.cursor.upcoming = ')' :: after := upcoming_moved h
  have hnext := upcoming_skipBlanks hclosing (begins_close after)
  refine ⟨r.skipBlanks.moved.skipBlanks.moved, upcoming_moved hnext, rfl, ?_⟩
  rw [readDatum_open h, readDatum_close hnext (fun _ => rfl)]
  rfl

private theorem readsRest_nil : ReadsRest symbols [')'] .nil := by
  intro r reversed stack after _ h
  have hnext := upcoming_skipBlanks h (begins_close after)
  refine ⟨r.skipBlanks.moved, upcoming_moved hnext, rfl, ?_⟩
  rw [readDatum_close hnext (fun _ => rfl)]

theorem Begins.append (h : Begins cs) (after : List Char) : Begins (cs ++ after) := by
  obtain ⟨ch, rest, rfl, hch⟩ := h
  exact ⟨ch, rest ++ after, rfl, hch⟩

variable {first rest : List Char} {d e : Datum}

private theorem ReadsRest.tail (hfirst : ReadsValue symbols first d) (hbegins : Begins first) :
    ReadsRest symbols (' ' :: '.' :: ' ' :: (first ++ [')'])) d := by
  intro r reversed stack after hne h
  obtain ⟨last, reversed, rfl⟩ := List.exists_cons_of_ne_nil hne
  have hpoint : r.skipBlanks.cursor.upcoming = '.' :: ' ' :: (first ++ [')'] ++ after) :=
    upcoming_skipBlanks_blank h ⟨'.', _, rfl, rfl, by decide⟩
  have hblank : r.skipBlanks.moved.cursor.upcoming = ' ' :: (first ++ ([')'] ++ after)) := by
    rw [upcoming_moved hpoint, List.append_assoc]
  obtain ⟨r₁, hr₁, hquotation, heq⟩ := hfirst r.skipBlanks.moved
    (.dotted (last :: reversed) :: stack) ([')'] ++ after) (ends_cons rfl after)
    (upcoming_skipBlanks_blank hblank (hbegins.append _))
  have hclosing := upcoming_skipBlanks hr₁ (begins_close after)
  refine ⟨r₁.skipBlanks.moved, upcoming_moved hclosing, hquotation, ?_⟩
  calc r.readDatum symbols (.list (last :: reversed) :: stack)
      = resume (r₁.complete symbols (.dotted (last :: reversed) :: stack) d) := by
        rw [readDatum_dot hpoint, heq]
    _ = r₁.readDatum symbols (.ended (last :: reversed) d :: stack) := rfl
    _ = _ := readDatum_close hclosing fun _ => rfl

private theorem ReadsRest.cons (hfirst : ReadsValue symbols first d) (hbegins : Begins first)
    (hrest : ReadsRest symbols rest e) (hends : ∀ after, Ends (rest ++ after)) :
    ReadsRest symbols (' ' :: (first ++ rest)) (.pair d e) := by
  intro r reversed stack after hne h
  rw [List.cons_append, List.append_assoc] at h
  obtain ⟨r₁, hr₁, hquotation₁, heq₁⟩ := hfirst r (.list reversed :: stack) (rest ++ after)
    (hends after) (upcoming_skipBlanks_blank h (hbegins.append _))
  obtain ⟨r₂, hr₂, hquotation₂, heq₂⟩ := hrest r₁ (d :: reversed) stack after (by simp) hr₁
  exact ⟨r₂, hr₂, hquotation₂.trans hquotation₁, heq₁.trans heq₂⟩

private theorem ReadsValue.list (hfirst : ReadsValue symbols first d) (hbegins : Begins first)
    (hrest : ReadsRest symbols rest e) (hends : ∀ after, Ends (rest ++ after)) :
    ReadsValue symbols ('(' :: (first ++ rest)) (.pair d e) := by
  intro r stack after _ h
  rw [List.cons_append, List.append_assoc] at h
  have hinside : r.skipBlanks.moved.cursor.upcoming = first ++ (rest ++ after) := upcoming_moved h
  obtain ⟨r₁, hr₁, hquotation₁, heq₁⟩ := hfirst r.skipBlanks.moved (.list [] :: stack)
    (rest ++ after) (hends after) (upcoming_skipBlanks hinside (hbegins.append _))
  obtain ⟨r₂, hr₂, hquotation₂, heq₂⟩ := hrest r₁ [d] stack after (by simp) hr₁
  refine ⟨r₂, hr₂, hquotation₂.trans hquotation₁, ?_⟩
  rw [readDatum_open h, heq₁]
  exact heq₂

variable {s : Store} {t : Tree}

theorem begins_text (ht : ∀ a ∈ t.atoms, Readable symbols a) :
    Begins (t.text s .written).toList := by
  cases t with
  | atom v =>
    by_cases hnil : v = .nil
    · rw [hnil]
      exact ⟨'(', [')'], by simp [Tree.text, Printer.atomText], rfl, by decide⟩
    · have hv := ht v (List.mem_singleton_self v)
      obtain ⟨ch, cs, htext, hch, -⟩ := atomText_start hv hnil (s := s) []
      rw [List.append_nil] at htext
      refine ⟨ch, cs, htext, ?_⟩
      rcases hch with rfl | hch
      · exact ⟨rfl, by decide⟩
      · exact ⟨by simp_all [isDelimiter], (ne_of_isDelimiter rfl hch).symm⟩
  | pair c first rest => exact ⟨'(', _, by simp [Tree.text]; rfl, rfl, by decide⟩

private theorem ends_restText (t : Tree) (after : List Char) :
    Ends ((t.restText s .written).toList ++ after) := by
  cases t with
  | atom v =>
    rw [Tree.restText]
    split
    · exact ends_cons (show isDelimiter ')' = true from rfl) _
    · rw [String.append_assoc, String.toList_append]
      exact ends_cons (show isDelimiter ' ' = true from rfl) _
  | pair c first rest =>
    rw [Tree.restText, String.append_assoc, String.toList_append]
    exact ends_cons (show isDelimiter ' ' = true from rfl) _

/-- The text of a tree is read as its datum. -/
theorem reads_text (ht : ∀ a ∈ t.atoms, Readable symbols a) :
    ReadsValue symbols (t.text s .written).toList t.datum ∧
      ReadsRest symbols (t.restText s .written).toList t.datum := by
  induction t with
  | atom v =>
    by_cases hnil : v = .nil
    · rw [hnil]
      refine ⟨?_, ?_⟩
      · have htext : ((Tree.atom .nil).text s .written).toList = ['(', ')'] := by
          simp [Tree.text, Printer.atomText]
        rw [htext]
        exact readsValue_nil
      · have htext : ((Tree.atom .nil).restText s .written).toList = [')'] := by
          simp [Tree.restText, Value.isNull]
        rw [htext]
        exact readsRest_nil
    · have hv := ht v (by simp [Tree.atoms])
      have hvalue : ReadsValue symbols ((Tree.atom v).text s .written).toList (.ofAtom v) :=
        fun r stack after hafter h => readDatum_atom hv hnil hafter h
      have hnull : ¬ v.isNull = true := by cases v <;> simp_all [Value.isNull]
      have hrest : ((Tree.atom v).restText s .written).toList =
          ' ' :: '.' :: ' ' :: (((Tree.atom v).text s .written).toList ++ [')']) := by
        rw [Tree.restText, if_neg hnull, Tree.text]
        simp
      rw [hrest]
      exact ⟨hvalue, ReadsRest.tail hvalue (begins_text ht)⟩
  | pair c first rest ihf ihr =>
    have hfirst : ∀ a ∈ first.atoms, Readable symbols a :=
      fun a ha => ht a (List.mem_append_left _ ha)
    have hrest : ∀ a ∈ rest.atoms, Readable symbols a :=
      fun a ha => ht a (List.mem_append_right _ ha)
    have htext : ((Tree.pair c first rest).text s .written).toList =
        '(' :: ((first.text s .written).toList ++ (rest.restText s .written).toList) := by
      simp [Tree.text]
    have hrestText : ((Tree.pair c first rest).restText s .written).toList =
        ' ' :: ((first.text s .written).toList ++ (rest.restText s .written).toList) := by
      simp [Tree.restText]
    rw [htext, hrestText]
    have hvalue := (ihf hfirst).1
    have hbegins : Begins (first.text s .written).toList := begins_text hfirst
    have hfollows := (ihr hrest).2
    exact ⟨ReadsValue.list hvalue hbegins hfollows (ends_restText rest),
      ReadsRest.cons hvalue hbegins hfollows (ends_restText rest)⟩

end Reader
end MiniScheme
