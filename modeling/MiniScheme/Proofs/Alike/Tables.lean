import MiniScheme.Proofs.Alike.Stores
import MiniScheme.Proofs.SymbolTable.Growth
/-! # Links between tables

Two tables link the symbols that they have for the same name. As tables only grow, so does the link; a
name interned in both gets symbols that go together. The link of a table with itself consists of its
own symbols.
-/
namespace MiniScheme

namespace SymbolTable

variable {t : SymbolTable}

theorem InOrder.same_iff (h : t.InOrder) {name name' : String} {x y : Symbol}
    (hx : t.lookup name = some x) (hy : t.lookup name' = some y) :
    x.same y = true ↔ name = name' := by
  obtain ⟨names, hnames⟩ := h
  obtain ⟨hxmem, rfl⟩ := hnames.lookup_eq_some_iff.mp hx
  obtain ⟨hymem, rfl⟩ := hnames.lookup_eq_some_iff.mp hy
  exact same_iff_name_eq hnames.distinct hxmem hymem

theorem InOrder.not_canGrow_of_intern (h : t.InOrder) {name : String} {e : SymbolTableError}
    {u : SymbolTable} (heq : t.intern name = (.error e, u)) : ¬ u.CanGrow := by
  obtain ⟨names, hnames⟩ := h
  rcases hnames.intern_cases name with ⟨x, -, -, hx⟩ | ⟨-, t', hx, -⟩ | ⟨-, hcannot, hx⟩
  · simp [heq] at hx
  · simp [heq] at hx
  · obtain ⟨-, rfl⟩ := by simpa [heq] using hx
    exact hcannot

end SymbolTable

namespace Link

variable {K : Terms} {L L' : Link K} {t t' u u' : SymbolTable}

/-- Tables whose symbols for one name go together. Under strict terms there is only one table. -/
structure Reads (L : Link K) (t t' : SymbolTable) : Prop where
  left : t.InOrder
  right : t'.InOrder
  symbol_iff {x y : Symbol} :
    L.symbol x y ↔ ∃ name, t.lookup name = some x ∧ t'.lookup name = some y
  strict : K.strict → t' = t

def ofTables (K : Terms) (closures : Nat) (ht : t.InOrder) (ht' : t'.InOrder)
    (hstrict : K.strict → t' = t)
    (hspare : ∀ spare, K.spare = some spare → spare.id.index ≤ closures := by rintro _ ⟨⟩) :
    Link K where
  symbol x y := ∃ name, t.lookup name = some x ∧ t'.lookup name = some y
  closures := closures
  name_eq := by
    rintro x y ⟨name, hx, hy⟩
    rw [ht.name_of_lookup hx, ht'.name_of_lookup hy]
  same_eq := by
    rintro x y x' y' ⟨name, hx, hy⟩ ⟨name', hx', hy'⟩
    rw [Bool.eq_iff_iff, ht.same_iff hx hx', ht'.same_iff hy hy']
  eq_of_strict := by
    rintro x y hK ⟨name, hx, hy⟩
    rw [hstrict hK, hx] at hy
    exact (Option.some.inj hy).symm
  spare_le := hspare _

theorem reads_ofTables (closures : Nat) (ht : t.InOrder) (ht' : t'.InOrder)
    (hstrict : K.strict → t' = t)
    (hspare : ∀ spare, K.spare = some spare → spare.id.index ≤ closures := by rintro _ ⟨⟩) :
    (ofTables K closures ht ht' hstrict hspare).Reads t t' :=
  ⟨ht, ht', Iff.rfl, hstrict⟩

theorem Reads.adds (h : L.Reads t t') (hadds : L.Adds L') : L'.Reads t t' :=
  ⟨h.left, h.right, by rw [hadds.symbol]; exact h.symbol_iff, h.strict⟩

theorem Reads.grow (h : L.Reads t t') (hgrows : t.Grows u) (hgrows' : t'.Grows u')
    (hstrict : K.strict → u' = u) :
    ∃ L', L.Interns L' ∧ L'.Reads u u' := by
  refine ⟨ofTables K L.closures hgrows.inOrder hgrows'.inOrder hstrict fun _ => L.spare_le,
    ⟨?_, rfl⟩, reads_ofTables _ _ _ _ _⟩
  intro x y hxy
  obtain ⟨name, hx, hy⟩ := h.symbol_iff.mp hxy
  exact ⟨name, hgrows.keeps _ _ hx, hgrows'.keeps _ _ hy⟩

theorem Reads.symbol_self (h : L.Reads t t) {x : Symbol} :
    L.symbol x x ↔ t.lookup x.name = some x := by
  rw [h.symbol_iff]
  constructor
  · rintro ⟨name, hx, -⟩
    rw [h.left.name_of_lookup hx]
    exact hx
  · intro hx
    exact ⟨x.name, hx, hx⟩

/-- The tables answer alike to a name: there is only one table, or both accept the name. -/
def Agree (K : Terms) (t t' : SymbolTable) (name : String) : Prop :=
  K.strict ∨ ((∃ x u, t.intern name = (.ok x, u)) ∧ ∃ y u', t'.intern name = (.ok y, u'))

theorem agree_of_ne_error {name : String}
    (h : K.strict ∨ ((∀ e, (t.intern name).1 ≠ .error e) ∧ ∀ e, (t'.intern name).1 ≠ .error e)) :
    Agree K t t' name := by
  have hok {t : SymbolTable} (h : ∀ e, (t.intern name).1 ≠ .error e) :
      ∃ x u, t.intern name = (.ok x, u) := by
    rcases hx : t.intern name with ⟨answer, u⟩
    cases answer with
    | ok x => exact ⟨x, u, rfl⟩
    | error e => exact absurd (congrArg Prod.fst hx) (h e)
  exact h.imp id fun h => ⟨hok h.1, hok h.2⟩

theorem Reads.agree_of_canGrow (h : L.Reads t t') (hgrow : K.strict ∨ (t.CanGrow ∧ t'.CanGrow))
    (name : String) : Agree K t t' name := by
  refine hgrow.imp id ?_
  rintro ⟨hcan, hcan'⟩
  obtain ⟨names, hnames⟩ := h.left
  obtain ⟨names', hnames'⟩ := h.right
  obtain ⟨x, u, hx, -⟩ := hnames.intern_of_canGrow hcan name
  obtain ⟨y, u', hy, -⟩ := hnames'.intern_of_canGrow hcan' name
  exact ⟨⟨x, u, hx⟩, y, u', hy⟩

theorem Reads.intern_ok (h : L.Reads t t') {name : String} {x y : Symbol}
    (hx : t.intern name = (.ok x, u)) (hy : t'.intern name = (.ok y, u')) :
    ∃ L', L.Interns L' ∧ L'.Reads u u' ∧ L'.symbol x y := by
  have hstrict : K.strict → u' = u := by
    intro hK
    rw [h.strict hK, hx] at hy
    exact (congrArg Prod.snd hy).symm
  obtain ⟨L', hinterns, hreads⟩ :=
    h.grow (h.left.grows_of_intern hx) (h.right.grows_of_intern hy) hstrict
  exact ⟨L', hinterns, hreads, hreads.symbol_iff.mpr
    ⟨name, h.left.lookup_of_intern hx, h.right.lookup_of_intern hy⟩⟩

theorem Reads.intern (h : L.Reads t t') {name : String} (hagree : Agree K t t' name) :
    ∃ L', L.Interns L' ∧ L'.Reads (t.intern name).2 (t'.intern name).2 ∧
      Answer (fun _ => True) L'.symbol (t.intern name).1 (t'.intern name).1 := by
  have hok {x y : Symbol} {u u' : SymbolTable} (hx : t.intern name = (.ok x, u))
      (hy : t'.intern name = (.ok y, u')) :
      ∃ L', L.Interns L' ∧ L'.Reads (t.intern name).2 (t'.intern name).2 ∧
        Answer (fun _ => True) L'.symbol (t.intern name).1 (t'.intern name).1 := by
    obtain ⟨L', hinterns, hreads, hsymbol⟩ := h.intern_ok hx hy
    rw [hx, hy]
    exact ⟨L', hinterns, hreads, .ok hsymbol⟩
  rcases hagree with hK | ⟨⟨x, u, hx⟩, y, u', hy⟩
  · have hsame : t'.intern name = t.intern name := by rw [h.strict hK]
    rcases hx : t.intern name with ⟨answer, u⟩
    cases answer with
    | ok x => exact hx ▸ hok hx (hsame.trans hx)
    | error e =>
      obtain ⟨L', hinterns, hreads⟩ := h.grow (h.left.grows_of_intern hx)
        (h.right.grows_of_intern (hsame.trans hx)) fun _ => rfl
      rw [hsame, hx]
      exact ⟨L', hinterns, hreads, .error trivial⟩
  · exact hok hx hy

end Link
end MiniScheme
