import Mathlib.Data.List.Nodup
import Mathlib.Data.List.Perm.Subperm
import MiniScheme.Store.Basic
/-! # Unfolding values to trees

A value from which no pair can reach itself unfolds to a finite tree. Nodes remember the pair they
come from, so a pair that is shared occurs several times in the tree.
-/
namespace MiniScheme

/-- A value with the pairs it leads to. -/
inductive Tree where
  | atom (v : Value)
  | pair (cell : CellId) (first rest : Tree)
deriving DecidableEq, Repr

namespace Tree

def value : Tree → Value
  | atom v => v
  | pair c _ _ => .pair c

/-- The pairs of a tree, once for each occurrence. -/
def cells : Tree → List CellId
  | atom _ => []
  | pair c first rest => c :: (first.cells ++ rest.cells)

/-- The values other than pairs, once for each occurrence. -/
def atoms : Tree → List Value
  | atom v => [v]
  | pair _ first rest => first.atoms ++ rest.atoms

/-- The pairs of a list, along the rest slots. -/
def spine : Tree → List CellId
  | atom _ => []
  | pair c _ rest => c :: rest.spine

def height : Tree → Nat
  | atom _ => 0
  | pair _ first rest => max first.height rest.height + 1

theorem spine_subset_cells (t : Tree) : t.spine ⊆ t.cells := by
  induction t with
  | atom v => exact List.Subset.refl _
  | pair c first rest _ ih =>
    intro d hd
    rcases List.mem_cons.mp hd with rfl | hd
    · exact List.mem_cons_self ..
    · exact List.mem_cons_of_mem _ (List.mem_append_right _ (ih hd))

end Tree

/-- A pair is among the first `n`. -/
def Value.isWithin (n : Nat) : Value → Bool
  | pair c => c.index < n
  | _ => true

namespace Store

variable {s : Store} {v : Value} {t : Tree}

/-- From a value, following slots leads to a pair. -/
inductive Reaches (s : Store) : Value → CellId → Prop
  | here (c : CellId) : Reaches s (.pair c) c
  | first {c d : CellId} (h : Reaches s (s.first c) d) : Reaches s (.pair c) d
  | rest {c d : CellId} (h : Reaches s (s.rest c) d) : Reaches s (.pair c) d

theorem Reaches.trans {c d : CellId} (h : s.Reaches v c) (h' : s.Reaches (.pair c) d) :
    s.Reaches v d := by
  induction h with
  | here c => exact h'
  | first _ ih => exact .first (ih h')
  | rest _ ih => exact .rest (ih h')

/-- Following rest slots only leads to a pair. -/
inductive OnSpine (s : Store) : Value → CellId → Prop
  | here (c : CellId) : OnSpine s (.pair c) c
  | next {c d : CellId} (h : OnSpine s (s.rest c) d) : OnSpine s (.pair c) d

/-- The pair can reach itself. -/
def OnCycle (s : Store) (c : CellId) : Prop := s.Reaches (s.first c) c ∨ s.Reaches (s.rest c) c

/-- No pair that the value leads to can reach itself. -/
def Acyclic (s : Store) (v : Value) : Prop := ∀ c, s.Reaches v c → ¬ s.OnCycle c

/-- Every pair that the value leads to is in the store. -/
def Holds (s : Store) (v : Value) : Prop := ∀ c, s.Reaches v c → c.index < s.cells.size

/-- No slot leads out of the store. -/
def Intact (s : Store) : Prop :=
  ∀ cell ∈ s.cells.toList,
    cell.first.isWithin s.cells.size = true ∧ cell.rest.isWithin s.cells.size = true

instance (s : Store) : Decidable s.Intact := inferInstanceAs (Decidable (∀ cell ∈ _, _))

private theorem Intact.slots (h : s.Intact) (c : CellId) :
    (s.first c).isWithin s.cells.size = true ∧ (s.rest c).isWithin s.cells.size = true := by
  by_cases hc : c.index < s.cells.size
  · have hcell : s.cell c = s.cells[c.index] := by simp [cell, hc]
    rw [first, rest, hcell]
    exact h _ (Array.getElem_mem_toList hc)
  · simp [first, rest, cell, hc, Value.isWithin]

theorem Intact.holds (h : s.Intact) (hv : v.isWithin s.cells.size = true) : s.Holds v := by
  intro c hreach
  induction hreach with
  | here c => simpa [Value.isWithin] using hv
  | first _ ih => exact ih (h.slots _).1
  | rest _ ih => exact ih (h.slots _).2

/-- The value unfolds to the tree. -/
inductive Unfolds (s : Store) : Value → Tree → Prop
  | atom (v : Value) (h : v.isPair = false) : Unfolds s v (.atom v)
  | pair (c : CellId) {first rest : Tree} (inside : c.index < s.cells.size)
    (hfirst : Unfolds s (s.first c) first) (hrest : Unfolds s (s.rest c) rest) :
    Unfolds s (.pair c) (.pair c first rest)

theorem Unfolds.value_eq (h : s.Unfolds v t) : t.value = v := by
  cases h with
  | atom v _ => rfl
  | pair c _ _ _ => rfl

theorem Unfolds.unique {t' : Tree} (h : s.Unfolds v t) (h' : s.Unfolds v t') : t = t' := by
  induction h generalizing t' with
  | atom v hv =>
    cases h' with
    | atom _ _ => rfl
    | pair c _ _ _ => simp [Value.isPair] at hv
  | pair c _ _ _ ihf ihr =>
    cases h' with
    | atom _ hv => simp [Value.isPair] at hv
    | pair _ _ hf hr => rw [ihf hf, ihr hr]

theorem Unfolds.mem_cells (h : s.Unfolds v t) (d : CellId) : d ∈ t.cells ↔ s.Reaches v d := by
  induction h with
  | atom v hv =>
    constructor
    · intro hd
      simp [Tree.cells] at hd
    · intro hd
      cases hd <;> simp [Value.isPair] at hv
  | pair c _ _ _ ihf ihr =>
    rw [Tree.cells, List.mem_cons, List.mem_append, ihf, ihr]
    constructor
    · rintro (rfl | hd | hd)
      · exact .here _
      · exact .first hd
      · exact .rest hd
    · intro hd
      cases hd with
      | here _ => exact .inl rfl
      | first hd => exact .inr (.inl hd)
      | rest hd => exact .inr (.inr hd)

theorem Unfolds.mem_spine (h : s.Unfolds v t) (d : CellId) : d ∈ t.spine ↔ s.OnSpine v d := by
  induction h with
  | atom v hv =>
    constructor
    · intro hd
      simp [Tree.spine] at hd
    · intro hd
      cases hd <;> simp [Value.isPair] at hv
  | pair c _ _ _ _ ihr =>
    rw [Tree.spine, List.mem_cons, ihr]
    constructor
    · rintro (rfl | hd)
      · exact .here _
      · exact .next hd
    · intro hd
      cases hd with
      | here _ => exact .inl rfl
      | next hd => exact .inr hd

/-- Pairs of the store that a value does not lead to, each once. -/
structure Path (s : Store) (v : Value) (path : List CellId) : Prop where
  nodup : path.Nodup
  inside : ∀ c ∈ path, c.index < s.cells.size
  behind : ∀ c ∈ path, ¬ s.Reaches v c

private theorem Path.nil (s : Store) (v : Value) : s.Path v [] :=
  ⟨List.nodup_nil, by simp, by simp⟩

private theorem Path.length_le {path : List CellId} (h : s.Path v path) :
    path.length ≤ s.cells.size := by
  have hinj : Function.Injective CellId.index := by
    rintro ⟨i⟩ ⟨j⟩ hij
    exact congrArg CellId.mk hij
  have hsub : path.map CellId.index ⊆ List.range s.cells.size := by
    intro i hi
    obtain ⟨c, hc, rfl⟩ := List.mem_map.mp hi
    exact List.mem_range.mpr (h.inside c hc)
  have hle := (List.subperm_of_subset (List.Nodup.map hinj h.nodup) hsub).length_le
  simpa using hle

theorem Path.cons {path : List CellId} {c : CellId} {w : Value} (h : s.Path (.pair c) path)
    (hc : c.index < s.cells.size) (hcycle : ¬ s.Reaches w c)
    (hw : ∀ d, s.Reaches w d → s.Reaches (.pair c) d) : s.Path w (c :: path) where
  nodup := List.nodup_cons.mpr ⟨fun hmem => h.behind c hmem (.here c), h.nodup⟩
  inside := by
    intro d hd
    rcases List.mem_cons.mp hd with rfl | hd
    · exact hc
    · exact h.inside d hd
  behind := by
    intro d hd hreach
    rcases List.mem_cons.mp hd with rfl | hd
    · exact hcycle hreach
    · exact h.behind d hd (hw d hreach)

theorem Acyclic.of_reaches {w : Value} (h : s.Acyclic v)
    (hw : ∀ d, s.Reaches w d → s.Reaches v d) : s.Acyclic w :=
  fun d hd => h d (hw d hd)

theorem Holds.of_reaches {w : Value} (h : s.Holds v)
    (hw : ∀ d, s.Reaches w d → s.Reaches v d) : s.Holds w :=
  fun d hd => h d (hw d hd)

private theorem exists_unfolds_within (n : Nat) {path : List CellId} (hpath : s.Path v path)
    (hn : s.cells.size ≤ path.length + n) (hacyclic : s.Acyclic v) (hholds : s.Holds v) :
    ∃ t, s.Unfolds v t ∧ t.height ≤ n := by
  induction n generalizing v path with
  | zero =>
    cases hv : v.isPair with
    | false => exact ⟨.atom v, .atom v hv, Nat.le_refl _⟩
    | true =>
      obtain ⟨c, rfl⟩ := Value.isPair_eq_true_iff.mp hv
      have hcell := hholds c (.here c)
      have hcons : s.Path .nil (c :: path) :=
        hpath.cons hcell (by rintro ⟨⟩) (by rintro d ⟨⟩)
      have := hcons.length_le
      rw [List.length_cons] at this
      omega
  | succ n ih =>
    cases hv : v.isPair with
    | false => exact ⟨.atom v, .atom v hv, Nat.zero_le _⟩
    | true =>
      obtain ⟨c, rfl⟩ := Value.isPair_eq_true_iff.mp hv
      have hcell := hholds c (.here c)
      have hcycle := hacyclic c (.here c)
      have hn' : s.cells.size ≤ (c :: path).length + n := by rw [List.length_cons]; omega
      obtain ⟨first, hfirst, hfh⟩ := ih
        (hpath.cons hcell (fun h => hcycle (.inl h)) (fun d hd => .first hd)) hn'
        (hacyclic.of_reaches fun d hd => .first hd) (hholds.of_reaches fun d hd => .first hd)
      obtain ⟨rest, hrest, hrh⟩ := ih
        (hpath.cons hcell (fun h => hcycle (.inr h)) (fun d hd => .rest hd)) hn'
        (hacyclic.of_reaches fun d hd => .rest hd) (hholds.of_reaches fun d hd => .rest hd)
      refine ⟨.pair c first rest, .pair c hcell hfirst hrest, ?_⟩
      rw [Tree.height]
      omega

/-- A value on no cycle unfolds, to a tree that is no higher than there are pairs. -/
theorem exists_unfolds (hacyclic : s.Acyclic v) (hholds : s.Holds v) :
    ∃ t, s.Unfolds v t ∧ t.height ≤ s.cells.size :=
  exists_unfolds_within s.cells.size (Path.nil s v) (by simp) hacyclic hholds

private theorem Unfolds.of_reaches {d : CellId} (h : s.Unfolds v t) (hd : s.Reaches v d) :
    ∃ t', s.Unfolds (.pair d) t' ∧ t'.height ≤ t.height := by
  induction hd generalizing t with
  | here c => exact ⟨t, h, Nat.le_refl _⟩
  | first _ ih =>
    cases h with
    | atom _ hv => simp [Value.isPair] at hv
    | pair _ _ hfirst _ =>
      obtain ⟨t', ht', hle⟩ := ih hfirst
      exact ⟨t', ht', by rw [Tree.height]; omega⟩
  | rest _ ih =>
    cases h with
    | atom _ hv => simp [Value.isPair] at hv
    | pair _ _ _ hrest =>
      obtain ⟨t', ht', hle⟩ := ih hrest
      exact ⟨t', ht', by rw [Tree.height]; omega⟩

/-- The pair at the root is not met again below it: the tree would be higher than itself. -/
theorem Unfolds.not_onCycle {c : CellId} (h : s.Unfolds (.pair c) t) : ¬ s.OnCycle c := by
  cases h with
  | atom _ hv => simp [Value.isPair] at hv
  | pair _ hc hfirst hrest =>
    have hroot := Unfolds.pair c hc hfirst hrest
    rintro (hreach | hreach)
    · obtain ⟨t', ht', hle⟩ := hfirst.of_reaches hreach
      rw [ht'.unique hroot, Tree.height] at hle
      omega
    · obtain ⟨t', ht', hle⟩ := hrest.of_reaches hreach
      rw [ht'.unique hroot, Tree.height] at hle
      omega

theorem Unfolds.acyclic (h : s.Unfolds v t) : s.Acyclic v := by
  intro c hc
  obtain ⟨t', ht', -⟩ := h.of_reaches hc
  exact ht'.not_onCycle

theorem Unfolds.holds (h : s.Unfolds v t) : s.Holds v := by
  intro c hc
  obtain ⟨t', ht', -⟩ := h.of_reaches hc
  cases ht' with
  | atom _ hv => simp [Value.isPair] at hv
  | pair _ hinside _ _ => exact hinside

theorem Unfolds.height_le (h : s.Unfolds v t) : t.height ≤ s.cells.size := by
  obtain ⟨t', ht', hle⟩ := exists_unfolds h.acyclic h.holds
  rwa [h.unique ht']

end Store
end MiniScheme
