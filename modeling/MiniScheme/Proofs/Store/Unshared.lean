import MiniScheme.Proofs.Store.Tree
/-! # Values without sharing

A value whose pairs are reached in one way only. It is on no circle, and no pair occurs twice in the
tree it unfolds to.
-/
namespace MiniScheme

inductive Slot where
  | first
  | rest
deriving DecidableEq, Repr

namespace Store

variable {s : Store} {v w : Value} {t : Tree} {p q : List Slot}

/-- Following these slots leads from one value to another. -/
inductive Leads (s : Store) : Value → List Slot → Value → Prop
  | here (v : Value) : Leads s v [] v
  | first {c : CellId} {p : List Slot} {v : Value} (h : Leads s (s.first c) p v) :
    Leads s (.pair c) (.first :: p) v
  | rest {c : CellId} {p : List Slot} {v : Value} (h : Leads s (s.rest c) p v) :
    Leads s (.pair c) (.rest :: p) v

/-- No two ways lead to one pair. -/
def Unshared (s : Store) (v : Value) : Prop :=
  ∀ c p q, s.Leads v p (.pair c) → s.Leads v q (.pair c) → p = q

private theorem Leads.append {u : Value} (h : s.Leads v p w) (h' : s.Leads w q u) :
    s.Leads v (p ++ q) u := by
  induction h with
  | here v => exact h'
  | first _ ih => exact .first (ih h')
  | rest _ ih => exact .rest (ih h')

private theorem Reaches.exists_leads {d : CellId} (h : s.Reaches v d) :
    ∃ p, s.Leads v p (.pair d) := by
  induction h with
  | here c => exact ⟨[], .here _⟩
  | first _ ih =>
    obtain ⟨p, hp⟩ := ih
    exact ⟨.first :: p, .first hp⟩
  | rest _ ih =>
    obtain ⟨p, hp⟩ := ih
    exact ⟨.rest :: p, .rest hp⟩

private theorem Unshared.first {c : CellId} (h : s.Unshared (.pair c)) : s.Unshared (s.first c) :=
  fun d _ _ hp hq => (List.cons.inj (h d _ _ (.first hp) (.first hq))).2

private theorem Unshared.rest {c : CellId} (h : s.Unshared (.pair c)) : s.Unshared (s.rest c) :=
  fun d _ _ hp hq => (List.cons.inj (h d _ _ (.rest hp) (.rest hq))).2

/-- A circle would be a second way back to each of its pairs. -/
theorem Unshared.acyclic (h : s.Unshared v) : s.Acyclic v := by
  intro c hc hcycle
  obtain ⟨p, hp⟩ := hc.exists_leads
  have hloop : ∃ slot q, s.Leads (.pair c) (slot :: q) (.pair c) := by
    rcases hcycle with hreach | hreach
    · obtain ⟨q, hq⟩ := hreach.exists_leads
      exact ⟨.first, q, .first hq⟩
    · obtain ⟨q, hq⟩ := hreach.exists_leads
      exact ⟨.rest, q, .rest hq⟩
  obtain ⟨slot, q, hq⟩ := hloop
  have heq := congrArg List.length (h c _ _ hp (hp.append hq))
  rw [List.length_append, List.length_cons] at heq
  omega

private theorem Leads.reaches {d : CellId} (h : s.Leads v p (.pair d)) : s.Reaches v d := by
  generalize hw : Value.pair d = w at h
  induction h with
  | here v =>
    rw [← hw]
    exact .here d
  | first _ ih => exact .first (ih hw)
  | rest _ ih => exact .rest (ih hw)

private theorem Unfolds.nodup_of_unshared (ht : s.Unfolds v t) (h : s.Unshared v) :
    t.cells.Nodup := by
  induction ht with
  | atom v hv => exact List.nodup_nil
  | pair c hc hfirst hrest ihf ihr =>
    have hcycle := (Unfolds.pair c hc hfirst hrest).not_onCycle
    rw [OnCycle, ← hfirst.mem_cells, ← hrest.mem_cells] at hcycle
    rw [Tree.cells, List.nodup_cons, List.mem_append, List.nodup_append]
    refine ⟨hcycle, ihf h.first, ihr h.rest, ?_⟩
    intro d hdf e he hde
    subst hde
    obtain ⟨p, hp⟩ := ((hfirst.mem_cells _).mp hdf).exists_leads
    obtain ⟨q, hq⟩ := ((hrest.mem_cells _).mp he).exists_leads
    have heq := h _ _ _ (.first hp) (.rest hq)
    simp at heq

private theorem Unfolds.unshared_of_nodup (ht : s.Unfolds v t) (h : t.cells.Nodup) :
    s.Unshared v := by
  induction ht with
  | atom v hv =>
    intro c p q hp _
    cases hp <;> simp [Value.isPair] at hv
  | pair c hc hfirst hrest ihf ihr =>
    have hcycle := (Unfolds.pair c hc hfirst hrest).not_onCycle
    rw [Tree.cells, List.nodup_cons, List.nodup_append] at h
    obtain ⟨-, hf, hr, hdisjoint⟩ := h
    have hboth : ∀ {d p q}, s.Leads (s.first c) p (.pair d) →
        s.Leads (s.rest c) q (.pair d) → False := fun hp hq =>
      hdisjoint _ ((hfirst.mem_cells _).mpr hp.reaches) _ ((hrest.mem_cells _).mpr hq.reaches) rfl
    intro d p q hp hq
    cases hp with
    | here _ =>
      cases hq with
      | here _ => rfl
      | first hq => exact absurd (.inl hq.reaches) hcycle
      | rest hq => exact absurd (.inr hq.reaches) hcycle
    | first hp =>
      cases hq with
      | here _ => exact absurd (.inl hp.reaches) hcycle
      | first hq => rw [ihf hf _ _ _ hp hq]
      | rest hq => exact (hboth hp hq).elim
    | rest hp =>
      cases hq with
      | here _ => exact absurd (.inr hp.reaches) hcycle
      | first hq => exact (hboth hq hp).elim
      | rest hq => rw [ihr hr _ _ _ hp hq]

/-- Nothing is shared if no pair occurs twice in the unfolding. -/
theorem Unfolds.unshared_iff (ht : s.Unfolds v t) : s.Unshared v ↔ t.cells.Nodup :=
  ⟨ht.nodup_of_unshared, ht.unshared_of_nodup⟩

theorem Unfolds.mem_atoms (ht : s.Unfolds v t) (a : Value) :
    a ∈ t.atoms ↔ a.isPair = false ∧ ∃ p, s.Leads v p a := by
  induction ht with
  | atom v hv =>
    rw [Tree.atoms, List.mem_singleton]
    constructor
    · rintro rfl
      exact ⟨hv, [], .here a⟩
    · rintro ⟨-, p, hp⟩
      cases hp with
      | here _ => rfl
      | first _ => simp [Value.isPair] at hv
      | rest _ => simp [Value.isPair] at hv
  | pair c hc _ _ ihf ihr =>
    rw [Tree.atoms, List.mem_append, ihf, ihr]
    constructor
    · rintro (⟨hpair, p, hp⟩ | ⟨hpair, p, hp⟩)
      · exact ⟨hpair, .first :: p, .first hp⟩
      · exact ⟨hpair, .rest :: p, .rest hp⟩
    · rintro ⟨hpair, p, hp⟩
      cases hp with
      | here _ => simp [Value.isPair] at hpair
      | first hp => exact .inl ⟨hpair, _, hp⟩
      | rest hp => exact .inr ⟨hpair, _, hp⟩

end Store
end MiniScheme
