import MiniScheme.Proofs.Store.ListLength
import MiniScheme.Proofs.Store.Loading
/-! # New pairs in front of a value

Making a list makes one pair for each element, the last one first, and changes nothing that was there
before. What the list ends in is not copied.
-/
namespace MiniScheme.Store

variable {s s' : Store} {v last : Value} {items : List Value} {n : Nat}

/-- From `v` on these items stand in pairs, and behind them comes `last`. The pair of the last item is
the one at `n`, and every other stands directly above the one it leads to; so no two are the same. -/
inductive Stacked (n : Nat) (s : Store) (last : Value) : Value → List Value → Prop
  | here : Stacked n s last last []
  | pair {v item : Value} {items : List Value} (behind : Stacked n s last v items)
    (hcell : s.cell ⟨n + items.length⟩ = ⟨item, v⟩) :
    Stacked n s last (.pair ⟨n + items.length⟩) (item :: items)

/-- Nothing has changed from one store to the other but that there is one more pair for each item.
From `v` on they lead over the items, in order, to `last`. -/
structure Prepended (s : Store) (items : List Value) (last v : Value) (s' : Store) : Prop where
  extends_cells : s.Extends s'
  size : s'.cells.size = s.cells.size + items.length
  frames : s'.frames = s.frames
  closures : s'.closures = s.closures
  stacked : s'.Stacked s.cells.size last v items

private theorem Stacked.extend (h : s.Stacked n last v items)
    (hsize : n + items.length ≤ s.cells.size) (hs : s.Extends s') : s'.Stacked n last v items := by
  induction h with
  | here => exact .here
  | @pair v item items _ hcell ih =>
    rw [List.length_cons] at hsize
    have hc : n + items.length < s.cells.size := by omega
    refine .pair (ih (Nat.le_of_lt hc)) ?_
    rw [(hs ⟨_⟩ hc).2, hcell]

private theorem prepended_nil (s : Store) (last : Value) : s.Prepended [] last last s where
  extends_cells := .refl s
  size := rfl
  frames := rfl
  closures := rfl
  stacked := .here

private theorem Prepended.cons (h : s.Prepended items last v s') (item : Value) :
    s.Prepended (item :: items) last (s'.cons item v).1 (s'.cons item v).2 where
  extends_cells := h.extends_cells.trans (s'.extends_cons item v)
  size := by
    rw [Store.cons, Array.size_push, h.size]
    rfl
  frames := h.frames
  closures := h.closures
  stacked := by
    have hbehind := h.stacked.extend (Nat.le_of_eq h.size.symm) (s'.extends_cons item v)
    have hcell := s'.cell_cons item v
    rw [h.size] at hcell
    rw [Store.cons, h.size]
    exact .pair hbehind hcell

private theorem Prepended.consAll (h : s.Prepended items last v s') (reversed : List Value) :
    s.Prepended (reversed.reverse ++ items) last (s'.consAll v reversed).1
      (s'.consAll v reversed).2 := by
  induction reversed generalizing s' v items with
  | nil => exact h
  | cons item reversed ih =>
    rw [List.reverse_cons, List.append_assoc]
    exact ih (h.cons item)

theorem prepended_consAll (s : Store) (last : Value) (reversed : List Value) :
    s.Prepended reversed.reverse last (s.consAll last reversed).1 (s.consAll last reversed).2 := by
  simpa using (prepended_nil s last).consAll reversed

theorem Stacked.lists (h : s.Stacked n .nil v items) : s.Lists v items := by
  generalize hlast : Value.nil = last at h
  induction h with
  | here => exact lists_nil_iff.mpr hlast.symm
  | pair _ hcell ih =>
    refine lists_cons_iff.mpr ⟨_, rfl, ?_, ?_⟩
    · rw [first, hcell]
    · rw [rest, hcell]
      exact ih

/-- Stacked pairs lead to nothing but their items and what comes last. -/
theorem Stacked.holds (h : s.Stacked n last v items) (hsize : n + items.length ≤ s.cells.size)
    (hlast : s.Holds last) (hitems : ∀ item ∈ items, s.Holds item) : s.Holds v := by
  induction h with
  | here => exact hlast
  | @pair v item items _ hcell ih =>
    rw [List.length_cons] at hsize
    have hbehind : s.Holds v :=
      ih (by omega) fun other hother => hitems other (List.mem_cons_of_mem _ hother)
    intro c hreach
    cases hreach with
    | here => show n + items.length < s.cells.size; omega
    | first hreach =>
      rw [first, hcell] at hreach
      exact hitems item List.mem_cons_self c hreach
    | rest hreach =>
      rw [rest, hcell] at hreach
      exact hbehind c hreach

end MiniScheme.Store
