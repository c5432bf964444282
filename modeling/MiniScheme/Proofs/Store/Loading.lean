import MiniScheme.Datum
import MiniScheme.Equality
import MiniScheme.Proofs.Store.Tree
/-! # Loading a datum and comparing it

New pairs leave old ones alone, so what unfolds in a store unfolds to the same tree in one that
extends it. Loading a datum makes a value that unfolds to a tree of that datum, and values that
unfold to trees of one datum compare as equal.
-/
namespace MiniScheme

/-- The datum that a value other than a pair is written as. -/
def Datum.ofAtom : Value → Datum
  | .bool b => .bool b
  | .int n => .int n
  | .float d => .float d
  | .str text => .str text
  | .symbol x => .symbol x
  | _ => .nil

namespace Tree

def datum : Tree → Datum
  | atom v => .ofAtom v
  | pair _ first rest => .pair first.datum rest.datum

/-- Every atom is determined by its datum. -/
def Faithful (t : Tree) : Prop := ∀ a ∈ t.atoms, (Datum.ofAtom a).atomValue = a

theorem Faithful.first {c : CellId} {first rest : Tree} (h : (pair c first rest).Faithful) :
    first.Faithful :=
  fun a ha => h a (List.mem_append_left _ ha)

theorem Faithful.rest {c : CellId} {first rest : Tree} (h : (pair c first rest).Faithful) :
    rest.Faithful :=
  fun a ha => h a (List.mem_append_right _ ha)

theorem Faithful.pair {first rest : Tree} (hfirst : first.Faithful) (hrest : rest.Faithful)
    (c : CellId) : (pair c first rest).Faithful := by
  intro a ha
  rcases List.mem_append.mp ha with ha | ha
  · exact hfirst a ha
  · exact hrest a ha

end Tree

namespace Store

variable {s s' s'' : Store} {v : Value} {t : Tree}

/-- The pairs of the first store are in the second, with the same slots. -/
def Extends (s s' : Store) : Prop :=
  ∀ c : CellId, c.index < s.cells.size → c.index < s'.cells.size ∧ s'.cell c = s.cell c

theorem Extends.refl (s : Store) : s.Extends s := fun _ hc => ⟨hc, rfl⟩

theorem Extends.trans (h : s.Extends s') (h' : s'.Extends s'') : s.Extends s'' := by
  intro c hc
  obtain ⟨hc', heq⟩ := h c hc
  obtain ⟨hc'', heq'⟩ := h' c hc'
  exact ⟨hc'', heq'.trans heq⟩

theorem extends_of_cells (h : s'.cells = s.cells) : s.Extends s' := by
  intro c hc
  rw [cell, cell, h]
  exact ⟨hc, rfl⟩

theorem extends_cons (s : Store) (first rest : Value) : s.Extends (s.cons first rest).2 := by
  intro c hc
  simp only [cons, cell, Array.size_push]
  refine ⟨by omega, ?_⟩
  rw [Array.getD_eq_getD_getElem?, Array.getD_eq_getD_getElem?, Array.getElem?_push_lt hc,
    Array.getElem?_eq_getElem hc]

theorem cell_cons (s : Store) (first rest : Value) :
    (s.cons first rest).2.cell ⟨s.cells.size⟩ = ⟨first, rest⟩ := by
  simp [cons, cell]

theorem Unfolds.extend (h : s.Unfolds v t) (hs : s.Extends s') : s'.Unfolds v t := by
  induction h with
  | atom v hv => exact .atom v hv
  | pair c hc _ _ ihf ihr =>
    obtain ⟨hc', hcell⟩ := hs c hc
    refine .pair c hc' ?_ ?_
    · rw [Store.first, hcell]
      exact ihf
    · rw [Store.rest, hcell]
      exact ihr

theorem unfolds_cons {first rest : Value} {tf tr : Tree} (hfirst : s.Unfolds first tf)
    (hrest : s.Unfolds rest tr) :
    (s.cons first rest).2.Unfolds (s.cons first rest).1 (.pair ⟨s.cells.size⟩ tf tr) := by
  have hs := extends_cons s first rest
  refine .pair _ ?_ ?_ ?_
  · simp [cons]
  · rw [Store.first, cell_cons]
    exact hfirst.extend hs
  · rw [Store.rest, cell_cons]
    exact hrest.extend hs

end Store

namespace Datum

variable {s : Store}

private theorem ofAtom_atomValue {d : Datum} (h : ∀ first rest, d ≠ .pair first rest) :
    ofAtom d.atomValue = d := by
  cases d with
  | pair first rest => exact absurd rfl (h first rest)
  | _ => rfl

private theorem isPair_atomValue (d : Datum) : d.atomValue.isPair = false := by
  cases d <;> rfl

/-- In a store that extends the first, the value unfolds to a tree of the datum. -/
def Builds (d : Datum) (s s' : Store) (v : Value) : Prop :=
  s.Extends s' ∧ ∃ t, s'.Unfolds v t ∧ t.datum = d ∧ t.Faithful

private theorem builds_atom {d : Datum} (h : ∀ first rest, d ≠ .pair first rest) (s : Store) :
    d.Builds s s d.atomValue := by
  refine ⟨.refl s, .atom d.atomValue, .atom _ (isPair_atomValue d), ofAtom_atomValue h, ?_⟩
  intro a ha
  rw [List.mem_singleton.mp ha, ofAtom_atomValue h]

private theorem Builds.pair {first rest : Datum} {s s₁ s₂ : Store} {v w : Value}
    (hfirst : first.Builds s s₁ v) (hrest : rest.Builds s₁ s₂ w) :
    (Datum.pair first rest).Builds s (s₂.cons v w).2 (s₂.cons v w).1 := by
  obtain ⟨hs₁, t₁, hv, hd₁, hf₁⟩ := hfirst
  obtain ⟨hs₂, t₂, hw, hd₂, hf₂⟩ := hrest
  have hs := (hs₁.trans hs₂).trans (Store.extends_cons s₂ v w)
  refine ⟨hs, .pair ⟨s₂.cells.size⟩ t₁ t₂, ?_, ?_, ?_⟩
  · exact Store.unfolds_cons (hv.extend hs₂) hw
  · rw [Tree.datum, hd₁, hd₂]
  · exact hf₁.pair hf₂ _

theorem assemble_build (d : Datum) (s : Store) (ts : List Task) (vs : List Value) :
    ∃ s' v, d.Builds s s' v ∧ assemble s (.build d :: ts) vs = assemble s' ts (v :: vs) := by
  induction d generalizing s ts vs with
  | pair first rest ihf ihr =>
    obtain ⟨s₁, v₁, hfirst, heq₁⟩ := ihf s (.build rest :: .join :: ts) vs
    obtain ⟨s₂, v₂, hrest, heq₂⟩ := ihr s₁ (.join :: ts) (v₁ :: vs)
    exact ⟨_, _, hfirst.pair hrest, by rw [assemble, heq₁, heq₂, assemble]⟩
  | _ => exact ⟨s, _, builds_atom (by intro _ _ h; cases h) s, by rw [assemble]; simp⟩

end Datum

namespace Store

variable {s : Store} {v : Value} {t : Tree}

theorem builds_load (s : Store) (d : Datum) : d.Builds s (s.load d).2 (s.load d).1 := by
  obtain ⟨s', v, hbuilds, heq⟩ := Datum.assemble_build d s [] []
  rw [load, heq, Datum.assemble]
  exact hbuilds

end Store

theorem Value.same_refl (v : Value) : v.same v = true := by
  cases v <;> simp [Value.same]

namespace Equality

variable {s : Store}

theorem compareAll_atom {v : Value} (hv : v.isPair = false) (room : Nat) (rest : List Pending) :
    compareAll s (⟨v, v, room⟩ :: rest) = compareAll s rest := by
  rw [compareAll, if_pos v.same_refl]
  rintro c d rfl
  simp [Value.isPair] at hv

theorem compareAll_unfolded {a b : Value} {t t' : Tree} (ha : s.Unfolds a t) (hb : s.Unfolds b t')
    (hdatum : t.datum = t'.datum) (ht : t.Faithful) (ht' : t'.Faithful) {room : Nat}
    (hroom : t.height ≤ room) (rest : List Pending) :
    compareAll s (⟨a, b, room⟩ :: rest) = compareAll s rest := by
  induction ha generalizing b t' room rest with
  | atom v hv =>
    cases hb with
    | atom _ hb =>
      have hvb : v = b := by
        rw [← ht v (by simp [Tree.atoms]), ← ht' b (by simp [Tree.atoms])]
        exact congrArg Datum.atomValue hdatum
      rw [hvb]
      exact compareAll_atom hb room rest
    | pair c _ _ _ => cases v <;> simp [Tree.datum, Datum.ofAtom] at hdatum
  | pair c hc hfirst hrest ihf ihr =>
    cases hb with
    | atom _ _ => cases b <;> simp [Tree.datum, Datum.ofAtom] at hdatum
    | pair c' hc' hfirst' hrest' =>
      rw [Tree.datum, Tree.datum, Datum.pair.injEq] at hdatum
      rw [Tree.height] at hroom
      obtain ⟨room, rfl⟩ : ∃ n, room = n + 1 := ⟨room - 1, by omega⟩
      rw [compareAll]
      split
      · rfl
      · rw [ihf hfirst' hdatum.1 ht.first ht'.first (by omega),
          ihr hrest' hdatum.2 ht.rest ht'.rest (by omega)]

end Equality

namespace Store

variable {s : Store} {v : Value} {t : Tree}

/-- A value equals what its datum loads as. -/
theorem equal?_load (h : s.Unfolds v t) (ht : t.Faithful) :
    (s.load t.datum).2.equal? (s.load t.datum).1 v = some true := by
  obtain ⟨hs, t', ht', hdatum, hfaithful⟩ := builds_load s t.datum
  have hheight := ht'.height_le
  have hroom : t'.height ≤ (s.load t.datum).2.cells.size * (s.load t.datum).2.cells.size :=
    Nat.le_trans hheight (Nat.le_mul_self _)
  rw [equal?, Equality.compareAll_unfolded ht' (h.extend hs) hdatum hfaithful ht hroom,
    Equality.compareAll]

end Store
end MiniScheme
