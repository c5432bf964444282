import MiniScheme.Proofs.SymbolTable.Interning
/-! # Tables only grow

Interning leaves a table in order and keeps every symbol that is in it. A name that was interned
before is found again, and interning it once more changes nothing.
-/
namespace MiniScheme.SymbolTable

variable {t t' t'' : SymbolTable} {name : String} {x : Symbol}

/-- The table holds the symbols of some list of names. -/
def InOrder (t : SymbolTable) : Prop := ∃ names, t.Represents names

/-- The second table is in order and has every symbol of the first, and no fewer slots. -/
structure Grows (t t' : SymbolTable) : Prop where
  inOrder : t'.InOrder
  keeps : ∀ name x, t.lookup name = some x → t'.lookup name = some x
  size_le : t.slots.size ≤ t'.slots.size
  maxCapacity : t'.maxCapacity = t.maxCapacity

theorem InOrder.grows_refl (h : t.InOrder) : t.Grows t :=
  ⟨h, fun _ _ hx => hx, Nat.le_refl _, rfl⟩

theorem Grows.trans (h : t.Grows t') (h' : t'.Grows t'') : t.Grows t'' :=
  ⟨h'.inOrder, fun name x hx => h'.keeps name x (h.keeps name x hx),
    Nat.le_trans h.size_le h'.size_le, h'.maxCapacity.trans h.maxCapacity⟩

private theorem size_of_placeAll {hash : NameHash} {symbols : List Symbol}
    {slots placed : Array (Option Symbol)}
    (h : placeAll hash symbols slots = .ok placed) : placed.size = slots.size := by
  induction symbols generalizing slots with
  | nil =>
    obtain rfl := Except.ok.inj h
    rfl
  | cons x symbols ih =>
    rw [placeAll] at h
    split at h
    · rw [ih h, Array.size_setIfInBounds]
    · simp at h

private theorem size_le_of_grownSlots {slots placed : Array (Option Symbol)}
    (h : t.grownSlots slots = .ok placed) : slots.size ≤ placed.size := by
  unfold grownSlots at h
  split at h
  · simp at h
  · next larger hnext =>
    obtain ⟨-, rfl⟩ := nextCapacity_eq_some_iff.mp hnext
    split at h
    · simp at h
    · rw [size_of_placeAll h, Array.size_replicate]
      omega

private theorem size_le_size_intern (t : SymbolTable) (name : String) :
    t.slots.size ≤ (t.intern name).2.slots.size := by
  unfold intern
  split
  · exact Nat.le_refl _
  · exact Nat.le_refl _
  · next index _ =>
    have hsize : (t.slots.setIfInBounds index (some ⟨t.occupied, name⟩)).size = t.slots.size :=
      Array.size_setIfInBounds
    dsimp only
    split
    · split
      · next hgrown =>
        have hle := size_le_of_grownSlots hgrown
        rwa [hsize] at hle
      · exact Nat.le_refl _
    · exact Nat.le_of_eq hsize.symm

theorem inOrder_withCapacity (capacity : Nat) (maxCapacity : Option Nat) (hash : NameHash) :
    (withCapacity capacity maxCapacity hash).InOrder :=
  ⟨[], represents_withCapacity capacity maxCapacity hash⟩

/-- However interning ends, the table has only grown, and it has the symbol that was answered. -/
theorem InOrder.grows_intern (h : t.InOrder) (name : String) :
    t.Grows (t.intern name).2 ∧
      ∀ x, (t.intern name).1 = .ok x → (t.intern name).2.lookup name = some x := by
  obtain ⟨names, hnames⟩ := h
  have hsame : t.Grows t := InOrder.grows_refl ⟨names, hnames⟩
  have hsize := size_le_size_intern t name
  rcases hnames.intern_cases name with ⟨x, hx, hname, heq⟩ | ⟨-, t', heq, ht', hmax⟩ | ⟨-, -, heq⟩
  · rw [heq]
    refine ⟨hsame, ?_⟩
    intro y hy
    obtain rfl : x = y := by simpa using hy
    exact hnames.lookup_eq_some_iff.mpr ⟨hx, hname⟩
  · rw [heq] at hsize ⊢
    refine ⟨⟨⟨_, ht'⟩, ?_, hsize, hmax⟩, ?_⟩
    · intro old y hy
      rw [hnames.lookup_eq_some_iff] at hy
      rw [ht'.lookup_eq_some_iff, symbolsOf_concat]
      exact ⟨List.mem_append_left _ hy.1, hy.2⟩
    · intro y hy
      obtain rfl : (⟨names.length, name⟩ : Symbol) = y := by simpa using hy
      rw [ht'.lookup_eq_some_iff, symbolsOf_concat]
      exact ⟨List.mem_append_right _ (List.mem_singleton_self _), rfl⟩
  · rw [heq]
    refine ⟨hsame, ?_⟩
    intro y hy
    simp at hy

theorem InOrder.grows_of_intern (h : t.InOrder) {answer : Except SymbolTableError Symbol}
    (heq : t.intern name = (answer, t')) : t.Grows t' := by
  have hgrows := (h.grows_intern name).1
  rwa [heq] at hgrows

theorem InOrder.name_of_lookup (h : t.InOrder) (hlookup : t.lookup name = some x) :
    x.name = name := by
  obtain ⟨names, hnames⟩ := h
  exact (hnames.lookup_eq_some_iff.mp hlookup).2

theorem InOrder.lookup_of_intern (h : t.InOrder) (heq : t.intern name = (.ok x, t')) :
    t'.lookup name = some x := by
  have hlookup := (h.grows_intern name).2 x
  rw [heq] at hlookup
  exact hlookup rfl

end MiniScheme.SymbolTable
