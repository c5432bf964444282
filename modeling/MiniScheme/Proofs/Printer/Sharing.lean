import MiniScheme.Proofs.Printer.Walk
/-! # Shared structure in print

When structure without a circle prints in full. A pair that is shared between an element of a list
and the part of that list behind the element is already open when the element is written, so it is
cut there as if it were on a circle; every other way of sharing is written out at each occurrence.
-/
namespace MiniScheme

namespace Tree

variable {s : Store} {style : PrintStyle} {t : Tree} {l : List CellId}

/-- No pair is met again below itself. -/
def Grounded : Tree → Prop
  | atom _ => True
  | pair c first rest =>
    (c ∉ first.cells ∧ c ∉ rest.cells) ∧ first.Grounded ∧ rest.Grounded

/-- Some element of a list leads to a pair of that list that stands behind it. -/
def Overlaps : Tree → Prop
  | atom _ => False
  | pair _ first rest =>
    (∃ d ∈ first.cells, d ∈ rest.spine) ∨ first.Overlaps ∨ rest.Overlaps

/-- Some pair is cut when those of `l` are open. -/
def Meets (l : List CellId) (t : Tree) : Prop := (∃ d ∈ l, d ∈ t.cells) ∨ t.Overlaps

private theorem run_subset_spine (l : List CellId) (t : Tree) : t.run l ⊆ t.spine := by
  induction t generalizing l with
  | atom v => exact List.Subset.refl _
  | pair c first rest _ ih =>
    rw [run]
    split
    · exact List.nil_subset _
    · exact List.cons_subset_cons c (ih _)

theorem mem_run_of_mem_spine (ht : t.Grounded) {d : CellId} (hd : d ∈ t.spine) :
    d ∈ t.run l ∨ ∃ e ∈ l, e ∈ t.cells := by
  induction t generalizing l with
  | atom v => simp [spine] at hd
  | pair c first rest _ ih =>
    by_cases hc : c ∈ l
    · exact .inr ⟨c, hc, List.mem_cons_self ..⟩
    · rw [run, if_neg hc]
      rcases List.mem_cons.mp hd with rfl | hd
      · exact .inl (List.mem_cons_self ..)
      · rcases @ih (c :: l) ht.2.2 hd with hrun | ⟨e, he, hin⟩
        · exact .inl (List.mem_cons_of_mem _ hrun)
        · rcases List.mem_cons.mp he with rfl | he
          · exact absurd hin ht.1.2
          · exact .inr ⟨e, he, List.mem_cons_of_mem _ (List.mem_append_right _ hin)⟩

/-- What is cut in a list is cut in its first element or behind it. -/
theorem meets_pair_iff {c : CellId} {first rest : Tree} (ht : (pair c first rest).Grounded)
    (hc : c ∉ l) :
    Meets l (pair c first rest) ↔
      first.Meets (rest.run (c :: l) ++ c :: l) ∨ rest.Meets (c :: l) := by
  obtain ⟨⟨hcf, hcr⟩, hf, hr⟩ := ht
  constructor
  · rintro (⟨d, hdl, hd⟩ | ⟨d, hdf, hdr⟩ | ho | ho)
    · rcases List.mem_cons.mp hd with rfl | hd
      · exact absurd hdl hc
      · rcases List.mem_append.mp hd with hd | hd
        · exact .inl (.inl ⟨d, by simp [hdl], hd⟩)
        · exact .inr (.inl ⟨d, by simp [hdl], hd⟩)
    · rcases @mem_run_of_mem_spine rest (c :: l) hr d hdr with hrun | hmeets
      · exact .inl (.inl ⟨d, by simp [hrun], hdf⟩)
      · exact .inr (.inl hmeets)
    · exact .inl (.inr ho)
    · exact .inr (.inr ho)
  · rintro ((⟨d, hdl, hd⟩ | ho) | ⟨d, hdl, hd⟩ | ho)
    · rcases List.mem_append.mp hdl with hrun | hdl
      · exact .inr (.inl ⟨d, hd, run_subset_spine _ _ hrun⟩)
      · rcases List.mem_cons.mp hdl with rfl | hdl
        · exact absurd hd hcf
        · exact .inl ⟨d, hdl, by simp [cells, hd]⟩
    · exact .inr (.inr (.inl ho))
    · rcases List.mem_cons.mp hdl with rfl | hdl
      · exact absurd hd hcr
      · exact .inl ⟨d, hdl, by simp [cells, hd]⟩
    · exact .inr (.inr (.inr ho))

private theorem meets_of_mem {c : CellId} {first rest : Tree} (hc : c ∈ l) :
    Meets l (pair c first rest) :=
  .inl ⟨c, hc, List.mem_cons_self ..⟩

theorem cutText_eq_text (ht : t.Grounded) (hmeets : ¬ t.Meets l) :
    t.cutText s style l = t.text s style ∧ t.cutRestText s style l = t.restText s style := by
  induction t generalizing l with
  | atom v => exact ⟨rfl, rfl⟩
  | pair c first rest ihf ihr =>
    have hc : c ∉ l := fun hc => hmeets (meets_of_mem hc)
    rw [meets_pair_iff ht hc, not_or] at hmeets
    have hf := (ihf ht.2.1 hmeets.1).1
    have hr := (ihr ht.2.2 hmeets.2).2
    rw [cutText, cutRestText, if_neg hc, if_neg hc, hf, hr, text, restText]
    exact ⟨rfl, rfl⟩

private theorem not_overlaps_of_nodup (h : t.cells.Nodup) : ¬ t.Overlaps := by
  induction t with
  | atom v => exact id
  | pair c first rest ihf ihr =>
    rw [cells, List.nodup_cons, List.nodup_append] at h
    obtain ⟨-, hf, hr, hdisjoint⟩ := h
    rintro (⟨d, hdf, hdr⟩ | ho | ho)
    · exact hdisjoint d hdf d (spine_subset_cells rest hdr) rfl
    · exact ihf hf ho
    · exact ihr hr ho

theorem not_meets_of_nodup (h : t.cells.Nodup) : ¬ t.Meets [] := by
  rintro (⟨d, hd, -⟩ | ho)
  · simp at hd
  · exact not_overlaps_of_nodup h ho

/-- The texts differ at a place that both have, so they stay different whatever follows. -/
def Diverge (x y : String) : Prop :=
  ∃ (p u w : List Char) (a b : Char), a ≠ b ∧ x.toList = p ++ a :: u ∧ y.toList = p ++ b :: w

private theorem Diverge.ne {x y : String} (h : Diverge x y) : x ≠ y := by
  rintro rfl
  obtain ⟨p, u, w, a, b, hab, hx, hy⟩ := h
  rw [hx] at hy
  exact hab (List.cons.inj (List.append_cancel_left hy)).1

private theorem Diverge.append_left {x y : String} (h : Diverge x y) (z : String) :
    Diverge (z ++ x) (z ++ y) := by
  obtain ⟨p, u, w, a, b, hab, hx, hy⟩ := h
  exact ⟨z.toList ++ p, u, w, a, b, hab, by simp [hx], by simp [hy]⟩

private theorem Diverge.append_right {x y : String} (h : Diverge x y) (x' y' : String) :
    Diverge (x ++ x') (y ++ y') := by
  obtain ⟨p, u, w, a, b, hab, hx, hy⟩ := h
  exact ⟨p, u ++ x'.toList, w ++ y'.toList, a, b, hab, by simp [hx], by simp [hy]⟩

def Pointed (text : String) : Prop := text.toList.head? = some '.'

private theorem exists_head_restText (s : Store) (style : PrintStyle) (t : Tree) :
    ∃ a u, (t.restText s style).toList = a :: u ∧ a ≠ '.' := by
  cases t with
  | atom v =>
    rw [restText]
    split
    · exact ⟨')', [], rfl, by decide⟩
    · exact ⟨' ', _, by simp; rfl, by decide⟩
  | pair c first rest => exact ⟨' ', _, by simp [restText]; rfl, by decide⟩

/-- An element and what follows it do not begin with a point if no atom does. -/
theorem exists_head_element (first rest : Tree)
    (h : ∀ a ∈ first.atoms, ¬ Pointed (Printer.atomText s style a)) :
    ∃ a u, (first.text s style ++ rest.restText s style).toList = a :: u ∧ a ≠ '.' := by
  cases first with
  | atom v =>
    have hv := h v (by simp [atoms])
    obtain ⟨a, u, hr, ha⟩ := exists_head_restText s style rest
    rw [text, String.toList_append, hr]
    cases hchars : (Printer.atomText s style v).toList with
    | nil => exact ⟨a, u, rfl, ha⟩
    | cons b w =>
      refine ⟨b, w ++ a :: u, rfl, ?_⟩
      rintro rfl
      exact hv (by rw [Pointed, hchars]; rfl)
  | pair c f r => exact ⟨'(', _, by simp [text]; rfl, by decide⟩

/-- Where something is cut the text differs. -/
theorem diverge_of_meets (ht : t.Grounded) (hmeets : t.Meets l)
    (hatoms : ∀ a ∈ t.atoms, ¬ Pointed (Printer.atomText s style a)) :
    Diverge (t.cutText s style l) (t.text s style) ∧
      Diverge (t.cutRestText s style l) (t.restText s style) := by
  induction t generalizing l with
  | atom v => rcases hmeets with ⟨d, -, hd⟩ | ho <;> simp_all [cells, Overlaps]
  | pair c first rest ihf ihr =>
    have hfatoms : ∀ a ∈ first.atoms, ¬ Pointed (Printer.atomText s style a) :=
      fun a ha => hatoms a (List.mem_append_left _ ha)
    have hratoms : ∀ a ∈ rest.atoms, ¬ Pointed (Printer.atomText s style a) :=
      fun a ha => hatoms a (List.mem_append_right _ ha)
    rw [cutText, cutRestText, text, restText]
    by_cases hc : c ∈ l
    · rw [if_pos hc, if_pos hc]
      constructor
      · exact ⟨[], _, _, '.', '(', by decide, rfl, by simp; rfl⟩
      · obtain ⟨a, u, hhead, ha⟩ := exists_head_element first rest hfatoms
        refine ⟨[' '], _, u, '.', a, ha.symm, rfl, ?_⟩
        rw [String.append_assoc, String.toList_append, hhead]
        rfl
    · rw [if_neg hc, if_neg hc]
      by_cases hf : first.Meets (rest.run (c :: l) ++ c :: l)
      · have hdiverge := (ihf ht.2.1 hf hfatoms).1
        exact ⟨(hdiverge.append_left _).append_right _ _, (hdiverge.append_left _).append_right _ _⟩
      · have hr := ((meets_pair_iff ht hc).mp hmeets).resolve_left hf
        have hdiverge := (ihr ht.2.2 hr hratoms).2
        rw [(cutText_eq_text ht.2.1 hf).1]
        exact ⟨hdiverge.append_left _, hdiverge.append_left _⟩

end Tree

namespace Store

open MiniScheme.Tree

variable {s : Store} {v : Value} {t : Tree}

/-- Some list that the value leads to has an element from which a pair further along that list can
be reached. -/
def Overlaps (s : Store) (v : Value) : Prop :=
  ∃ c d, s.Reaches v c ∧ s.Reaches (s.first c) d ∧ s.OnSpine (s.rest c) d

private theorem Unfolds.grounded (h : s.Unfolds v t) : t.Grounded := by
  induction h with
  | atom v hv => trivial
  | pair c hc hfirst hrest ihf ihr =>
    have hcycle := (Unfolds.pair c hc hfirst hrest).not_onCycle
    rw [OnCycle, ← hfirst.mem_cells, ← hrest.mem_cells, not_or] at hcycle
    exact ⟨hcycle, ihf, ihr⟩

private theorem Unfolds.overlaps_iff (h : s.Unfolds v t) : t.Overlaps ↔ s.Overlaps v := by
  induction h with
  | atom v hv =>
    constructor
    · exact False.elim
    · rintro ⟨c, d, hreach, -⟩
      cases hreach <;> simp [Value.isPair] at hv
  | pair c hc hfirst hrest ihf ihr =>
    simp only [Tree.Overlaps, ihf, ihr, hfirst.mem_cells, hrest.mem_spine]
    constructor
    · rintro (⟨d, hd, hd'⟩ | ⟨e, d, he, hd⟩ | ⟨e, d, he, hd⟩)
      · exact ⟨c, d, .here c, hd, hd'⟩
      · exact ⟨e, d, .first he, hd⟩
      · exact ⟨e, d, .rest he, hd⟩
    · rintro ⟨e, d, he, hd⟩
      cases he with
      | here _ => exact .inl ⟨d, hd⟩
      | first he => exact .inr (.inl ⟨e, d, he, hd⟩)
      | rest he => exact .inr (.inr ⟨e, d, he, hd⟩)

private theorem meets_nil_iff (h : s.Unfolds v t) : t.Meets [] ↔ s.Overlaps v := by
  rw [Meets, h.overlaps_iff]
  simp

/-- Where nothing is cut the value prints as its tree. -/
theorem print_eq_topText {style : PrintStyle} (ht : s.Unfolds v t) (hmeets : ¬ t.Meets []) :
    s.print style v = t.topText s style := by
  cases ht with
  | atom v hv => exact Printer.print_atom hv
  | pair c hc hfirst hrest =>
    have ht := Unfolds.pair c hc hfirst hrest
    rw [Printer.print_pair ht, topText, (cutText_eq_text ht.grounded hmeets).1]

theorem print_ne_topText {style : PrintStyle} (ht : s.Unfolds v t) (hmeets : t.Meets [])
    (hatoms : ∀ a ∈ t.atoms, ¬ Pointed (Printer.atomText s style a)) :
    s.print style v ≠ t.topText s style := by
  have hdiverge := (diverge_of_meets ht.grounded hmeets hatoms).1
  cases ht with
  | atom v hv => exact absurd rfl hdiverge.ne
  | pair c hc hfirst hrest =>
    rw [Printer.print_pair (.pair c hc hfirst hrest), topText]
    exact (hdiverge.append_left "'").ne

/-- Structure without a circle prints in full unless a list overlaps one of its own elements. If it
does the text differs, as long as no atom begins with the point that the marker begins with. -/
theorem acyclic_prints_in_full_unless_overlapping (hacyclic : s.Acyclic v) (hholds : s.Holds v) :
    ∃ t, s.Unfolds v t ∧ ∀ style,
      (¬ s.Overlaps v → s.print style v = t.topText s style) ∧
      (s.Overlaps v → (∀ a ∈ t.atoms, ¬ Pointed (Printer.atomText s style a)) →
        s.print style v ≠ t.topText s style) := by
  obtain ⟨t, ht, -⟩ := exists_unfolds hacyclic hholds
  refine ⟨t, ht, fun style => ?_⟩
  rw [← meets_nil_iff ht]
  exact ⟨print_eq_topText ht, print_ne_topText ht⟩

/-- A list of one number, and the pair whose slots both hold it. -/
def sharedTail : Store := ⟨#[⟨.int 2, .nil⟩, ⟨.pair ⟨0⟩, .pair ⟨0⟩⟩], #[], #[]⟩

/-- Its unfolding, in which the list stands twice. -/
def sharedTailTree : Tree :=
  .pair ⟨1⟩ (.pair ⟨0⟩ (.atom (.int 2)) (.atom .nil)) (.pair ⟨0⟩ (.atom (.int 2)) (.atom .nil))

private theorem unfolds_sharedTail : sharedTail.Unfolds (.pair ⟨1⟩) sharedTailTree :=
  have hshared : sharedTail.Unfolds (.pair ⟨0⟩) (.pair ⟨0⟩ (.atom (.int 2)) (.atom .nil)) :=
    .pair ⟨0⟩ (by decide) (.atom _ rfl) (.atom _ rfl)
  .pair ⟨1⟩ (by decide) hshared hshared

/-- The list is cut where it stands as its own first element. -/
theorem sharedTail_prints_cut :
    (sharedTail.Acyclic (.pair ⟨1⟩) ∧ sharedTail.Holds (.pair ⟨1⟩)) ∧
      sharedTailTree.topText sharedTail .written = "'((2) 2)" ∧
      sharedTail.print .written (.pair ⟨1⟩) = "'(... 2)" ∧
      sharedTail.print .written (.pair ⟨1⟩) ≠ sharedTailTree.topText sharedTail .written := by
  have hacyclic := unfolds_sharedTail.acyclic
  have hholds := unfolds_sharedTail.holds
  have hcut : sharedTail.print .written (.pair ⟨1⟩) = "'(... 2)" := by
    rw [Printer.print_pair unfolds_sharedTail]
    cbv
  have hoverlaps : sharedTail.Overlaps (.pair ⟨1⟩) := ⟨⟨1⟩, ⟨0⟩, .here _, .here _, .here _⟩
  have hatoms : ∀ a ∈ sharedTailTree.atoms,
      ¬ Pointed (Printer.atomText sharedTail .written a) := by
    intro a ha
    simp only [sharedTailTree, atoms, List.mem_append, List.mem_singleton, or_self] at ha
    rcases ha with rfl | rfl <;> cbv <;> decide
  obtain ⟨t, ht, htext⟩ := acyclic_prints_in_full_unless_overlapping hacyclic hholds
  obtain rfl := ht.unique unfolds_sharedTail
  exact ⟨⟨hacyclic, hholds⟩, by cbv, hcut, (htext .written).2 hoverlaps hatoms⟩

end Store

end MiniScheme
