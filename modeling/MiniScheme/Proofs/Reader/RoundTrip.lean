import MiniScheme.Proofs.Printer.Sharing
import MiniScheme.Proofs.Reader.Lists
import MiniScheme.Proofs.Store.Unshared
import MiniScheme.Proofs.SymbolTable.Interning
/-! # Reading undoes printing

What a value without sharing prints as is read back whole: an atom as itself, a list behind the
quote mark that the printer puts in front of it.
-/
namespace MiniScheme

namespace Reader

open MiniScheme.Text

variable {r : Reader} {symbols : SymbolTable} {s : Store} {t : Tree}

private theorem read_of_readDatum {cs : List Char} {ch : Char}
    (h : r.skipBlanks.cursor.upcoming = ch :: cs) {d : Datum} {r' : Reader}
    {symbols' : SymbolTable} (hread : r.readDatum symbols [] = ⟨.ok d, r', symbols'⟩) :
    r.read symbols = ⟨.ok (some d), r', symbols'⟩ := by
  have hend : ¬ r.skipBlanks.cursor.atEnd = true := by simp [Cursor.atEnd_eq, h]
  rw [read, if_neg hend, hread]

theorem upcoming_ofString (source : String) : (ofString source).cursor.upcoming = source.toList :=
  rfl

theorem read_atomText {v : Value} (hv : Readable symbols v) (hnil : v ≠ .nil) {source : String}
    (hsource : source = Printer.atomText s .written v) :
    ∃ r', (ofString source).read symbols = ⟨.ok (some (.ofAtom v)), r', symbols⟩ ∧
      r'.cursor.atEnd = true := by
  obtain ⟨ch, cs, htext, -⟩ := atomText_start hv hnil (s := s) []
  have hbegins : Begins (Printer.atomText s .written v).toList :=
    begins_text (t := .atom v) (by simpa [Tree.atoms] using hv)
  rw [List.append_nil] at htext
  have hstart : (ofString source).skipBlanks.cursor.upcoming =
      (Printer.atomText s .written v).toList :=
    upcoming_skipBlanks (by rw [upcoming_ofString, hsource]) hbegins
  have hatom : ∃ r' : Reader, r'.cursor.upcoming = [] ∧ r'.quotation = none ∧
      (ofString source).readDatum symbols [] = resume (r'.complete symbols [] (.ofAtom v)) :=
    readDatum_atom hv hnil ends_nil (by rw [hstart, List.append_nil])
  obtain ⟨r', hr', -, hread⟩ := hatom
  exact ⟨r', read_of_readDatum (hstart.trans htext) hread, by rw [Cursor.atEnd_eq, hr']; rfl⟩

theorem read_quotation (ht : ∀ a ∈ t.atoms, Readable symbols a) {q : Symbol}
    {symbols' : SymbolTable} (hquote : symbols.intern "quote" = (.ok q, symbols'))
    {source : String} (hsource : source.toList = '\'' :: (t.text s .written).toList) :
    ∃ r', (ofString source).read symbols =
        ⟨.ok (some (.pair (.symbol q) (.pair t.datum .nil))), r', symbols'⟩ ∧
      r'.cursor.atEnd = true := by
  have hstart : (ofString source).skipBlanks.cursor.upcoming =
      '\'' :: (t.text s .written).toList :=
    upcoming_skipBlanks hsource ⟨'\'', _, rfl, rfl, by decide⟩
  have hinside : (ofString source).skipBlanks.moved.cursor.upcoming =
      (t.text s .written).toList ++ [] := by
    rw [upcoming_moved hstart, List.append_nil]
  obtain ⟨r', hr', hquotation, hread⟩ := (reads_text ht).1 (ofString source).skipBlanks.moved
    [.quotation] [] ends_nil (upcoming_skipBlanks hinside ((begins_text ht).append []))
  have hnone : r'.quotation = none := hquotation
  refine ⟨{ r' with quotation := some q }, read_of_readDatum hstart ?_, ?_⟩
  · rw [readDatum_quote hstart, hread, complete, quoteSymbol, hnone, hquote]
    rfl
  · rw [Cursor.atEnd_eq, hr']
    rfl

end Reader

namespace Store

variable {s : Store} {v : Value} {symbols : SymbolTable} {names : List String}

/-- Loaded into the store, the datum equals the value. -/
def LoadsAs (s : Store) (d : Datum) (v : Value) : Prop :=
  (s.load d).2.equal? (s.load d).1 v = some true

private theorem faithful_of_readable {t : Tree} (ht : ∀ a ∈ t.atoms, Readable symbols a) :
    t.Faithful := by
  intro a ha
  have hreadable := ht a ha
  cases a <;> first | rfl | exact hreadable.elim

private theorem unfolds_quotation {t : Tree} (ht : s.Unfolds v t) (q : Symbol) :
    ∃ t', (s.list [.symbol q, v]).2.Unfolds (s.list [.symbol q, v]).1 t' ∧
      t'.datum = .pair (.symbol q) (.pair t.datum .nil) ∧ (t.Faithful → t'.Faithful) := by
  have hvalue := unfolds_cons ht (.atom .nil rfl)
  have hlist := unfolds_cons (.atom (.symbol q) rfl) hvalue
  refine ⟨_, hlist, rfl, fun hfaithful => ?_⟩
  have hatom : ∀ a, (Datum.ofAtom a).atomValue = a → (Tree.atom a).Faithful := by
    intro a ha b hb
    rw [List.mem_singleton.mp hb]
    exact ha
  exact (hatom _ rfl).pair (hfaithful.pair (hatom _ rfl) _) _

private theorem topText_of_list {style : PrintStyle} {t : Tree} (ht : s.Unfolds v t)
    (hlist : v.isPair = true ∨ v = .nil) : t.topText s style = "'" ++ t.text s style := by
  cases ht with
  | atom _ hv =>
    rcases hlist with hpair | rfl
    · rw [hv] at hpair
      contradiction
    · rw [Tree.topText, Tree.text, Printer.atomText]
      decide
  | pair c _ _ _ => rfl

private theorem topText_of_atom {style : PrintStyle} (hnil : v ≠ .nil) :
    (Tree.atom v).topText s style = Printer.atomText s style v := by
  have hnull : ¬ v.isNull = true := by cases v <;> simp_all [Value.isNull]
  rw [Tree.topText, if_neg hnull]

/-- Reading the text of a value without sharing takes all of it and gives the value back: an atom
other than the empty list as it was, a list as its quotation. The bound on the capacity holds of
every table that fits a memory of 64-bit addresses. -/
theorem reading_undoes_printing (hholds : s.Holds v) (hunshared : s.Unshared v)
    (hatoms : ∀ p a, s.Leads v p a → a.isPair = false → Readable symbols a)
    (htable : symbols.Represents names) (hunlimited : symbols.maxCapacity = none)
    (hcapacity : 2 * (symbols.capacity + 1) < 0x10000000000000000) :
    ∃ d r symbols', (Reader.ofString (s.text v)).read symbols = ⟨.ok (some d), r, symbols'⟩ ∧
      r.cursor.atEnd = true ∧
      (v.isPair = false ∧ v ≠ .nil → s.LoadsAs d v) ∧
      (v.isPair = true ∨ v = .nil → ∃ q, symbols'.lookup "quote" = some q ∧
        (s.list [.symbol q, v]).2.LoadsAs d (s.list [.symbol q, v]).1) := by
  obtain ⟨t, ht, -⟩ := exists_unfolds hunshared.acyclic hholds
  have hreadable : ∀ a ∈ t.atoms, Readable symbols a := by
    intro a ha
    obtain ⟨hpair, p, hp⟩ := (ht.mem_atoms a).mp ha
    exact hatoms p a hp hpair
  have hfaithful := faithful_of_readable hreadable
  have htext : s.text v = t.topText s .written :=
    print_eq_topText ht (Tree.not_meets_of_nodup (ht.unshared_iff.mp hunshared))
  by_cases hlist : v.isPair = true ∨ v = .nil
  · have hgrow : symbols.CanGrow :=
      ⟨_, if_pos hcapacity, by simp [hunlimited]⟩
    obtain ⟨q, symbols', hintern, hlookup⟩ := htable.intern_of_canGrow hgrow "quote"
    have hsource : (s.text v).toList = '\'' :: (t.text s .written).toList := by
      rw [htext, topText_of_list ht hlist]
      simp
    obtain ⟨r, hread, hend⟩ := Reader.read_quotation hreadable hintern hsource
    obtain ⟨t', ht', hdatum, hfaithful'⟩ := unfolds_quotation ht q
    refine ⟨_, r, symbols', hread, hend, ?_, fun _ => ⟨q, hlookup, ?_⟩⟩
    · rintro ⟨hpair, hnil⟩
      simp [hpair, hnil] at hlist
    · rw [LoadsAs, ← hdatum]
      exact equal?_load ht' (hfaithful' hfaithful)
  · rw [not_or, Bool.not_eq_true] at hlist
    cases ht with
    | pair c _ _ _ => simp [Value.isPair] at hlist
    | atom _ _ =>
      have hv := hreadable v (List.mem_singleton_self v)
      obtain ⟨r, hread, hend⟩ := Reader.read_atomText hv hlist.2
        (htext.trans (topText_of_atom hlist.2))
      refine ⟨_, r, symbols, hread, hend, fun _ => equal?_load (.atom v hlist.1) hfaithful, ?_⟩
      rintro (hpair | hnil)
      · rw [hlist.1] at hpair
        contradiction
      · exact absurd hnil hlist.2

/-- A dotted list of a string with both kinds of escapes, a symbol and the least integer. -/
def mixedList : Store :=
  ⟨#[⟨.str "a\"\n", .pair ⟨1⟩⟩, ⟨.symbol ⟨0, "x"⟩, .int Int64.minValue⟩], #[], #[]⟩

def mixedSymbols : SymbolTable := ((SymbolTable.withCapacity 3 none (fun _ => 2)).intern "x").2

private theorem unfolds_mixedList :
    mixedList.Unfolds (.pair ⟨0⟩)
      (.pair ⟨0⟩ (.atom (.str "a\"\n"))
        (.pair ⟨1⟩ (.atom (.symbol ⟨0, "x"⟩)) (.atom (.int Int64.minValue)))) :=
  .pair ⟨0⟩ (by decide) (.atom _ rfl) (.pair ⟨1⟩ (by decide) (.atom _ rfl) (.atom _ rfl))

private theorem represents_mixedSymbols : mixedSymbols.Represents ["x"] := by
  have hempty := SymbolTable.represents_withCapacity 3 none (fun _ => 2)
  rcases hempty.intern_cases "x" with ⟨x, hx, -⟩ | ⟨-, t', heq, ht', -⟩ | ⟨-, hcannot, -⟩
  · simp [SymbolTable.symbolsOf] at hx
  · rw [mixedSymbols, heq]
    exact ht'
  · exact absurd ⟨7, by decide, by simp [SymbolTable.withCapacity]⟩ hcannot

private theorem nameable_x : Nameable "x" := by
  have hchars : "x".toList = ['x'] := by decide
  refine ⟨⟨?_, ?_, ?_⟩, ?_, ?_⟩ <;> rw [hchars]
  · simp
  · simp
  · intro ch hch
    rw [List.mem_singleton.mp hch]
    rfl
  · simp
  · rfl

private theorem readable_mixedList (p : List Slot) (a : Value)
    (ha : mixedList.Leads (.pair ⟨0⟩) p a)
    (hpair : a.isPair = false) : Readable mixedSymbols a := by
  have hmem := (unfolds_mixedList.mem_atoms a).mpr ⟨hpair, p, ha⟩
  simp only [Tree.atoms, List.mem_append, List.mem_singleton] at hmem
  rcases hmem with rfl | rfl | rfl
  · trivial
  · have hlookup := represents_mixedSymbols.lookup_eq_some_iff.mpr ⟨List.mem_singleton_self _, rfl⟩
    exact ⟨hlookup, nameable_x⟩
  · trivial

theorem mixedList_read_back :
    mixedList.text (.pair ⟨0⟩) = "'(\"a\\\"\\n\" x . -9223372036854775808)" ∧
      ∃ d r symbols', (Reader.ofString (mixedList.text (.pair ⟨0⟩))).read mixedSymbols =
          ⟨.ok (some d), r, symbols'⟩ ∧
        r.cursor.atEnd = true ∧
        ∃ q, symbols'.lookup "quote" = some q ∧
          (mixedList.list [.symbol q, .pair ⟨0⟩]).2.LoadsAs d
            (mixedList.list [.symbol q, .pair ⟨0⟩]).1 := by
  have hunshared := unfolds_mixedList.unshared_iff.mpr (by decide)
  have htext : mixedList.text (.pair ⟨0⟩) = "'(\"a\\\"\\n\" x . -9223372036854775808)" := by
    rw [text, print_eq_topText unfolds_mixedList (Tree.not_meets_of_nodup (by decide))]
    cbv
  obtain ⟨d, r, symbols', hread, hend, -, hlist⟩ := reading_undoes_printing unfolds_mixedList.holds
    hunshared readable_mixedList represents_mixedSymbols rfl (by decide)
  exact ⟨htext, d, r, symbols', hread, hend, hlist (.inl rfl)⟩

end Store
end MiniScheme
