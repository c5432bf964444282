import MiniScheme.Proofs.Alike.References
import MiniScheme.Proofs.Store.ListLength
/-! # Texts that stand in the store

A tree whose atoms may be any values is a text: pairs of its own, around parts that are of no concern.
It stands as long as its pairs hold what it says. Then it can be read as it is written, and who holds
on to the text holds on to its parts.

So two texts with the same parts are held alike: whoever evaluates the one reaches what whoever
evaluates the other reaches, but for the pairs of the texts themselves.
-/
namespace MiniScheme

namespace Tree

def list : List (CellId × Tree) → Tree
  | [] => .atom .nil
  | (c, t) :: ts => .pair c t (list ts)

/-- What the parts of a text refer to. -/
def refs (t : Tree) : List Ref := t.atoms.filterMap Value.ref?

variable {t first rest : Tree} {c : CellId} {r : Ref}

private theorem mem_refs_iff : r ∈ t.refs ↔ ∃ v ∈ t.atoms, v.ref? = some r := List.mem_filterMap

theorem refs_pair : (pair c first rest).refs = first.refs ++ rest.refs := List.filterMap_append

/-- The reference is to a pair of the text or stands in a part of it. -/
def Covers (t : Tree) (r : Ref) : Prop := (∃ c ∈ t.cells, r = .cell c) ∨ r ∈ t.refs

theorem covers_pair :
    (pair c first rest).Covers r ↔ r = .cell c ∨ first.Covers r ∨ rest.Covers r := by
  simp only [Covers, cells, refs_pair, List.mem_cons, List.mem_append, or_and_right, exists_or,
    exists_eq_left]
  grind

theorem covers_of_ref?_value (h : t.value.ref? = some r) : t.Covers r := by
  cases t with
  | atom v => exact .inr (mem_refs_iff.mpr ⟨v, List.mem_singleton_self v, h⟩)
  | pair c first rest => exact .inl ⟨c, List.mem_cons_self .., (Option.some.inj h).symm⟩

end Tree

namespace Store

variable {s : Store} {t first rest : Tree} {c : CellId} {r : Ref} {ts : List (CellId × Tree)}

/-- The pairs of the text hold what it says. -/
def Stands (s : Store) : Tree → Prop
  | .atom _ => True
  | .pair c first rest =>
    s.cells[c.index]? = some ⟨first.value, rest.value⟩ ∧ s.Stands first ∧ s.Stands rest

instance decidableStands (s : Store) : (t : Tree) → Decidable (s.Stands t)
  | .atom _ => isTrue trivial
  | .pair _ first rest =>
    have := decidableStands s first
    have := decidableStands s rest
    inferInstanceAs (Decidable (_ ∧ _ ∧ _))

namespace Stands

private theorem has (h : s.Stands (.pair c first rest)) : s.has (.cell c) = true := by
  obtain ⟨hc, -⟩ := Array.getElem?_eq_some_iff.mp h.1
  exact decide_eq_true hc

private theorem cell_eq (h : s.Stands (.pair c first rest)) :
    s.cell c = ⟨first.value, rest.value⟩ := by
  rw [Store.cell, Array.getD_eq_getD_getElem?, h.1, Option.getD_some]

theorem first_eq (h : s.Stands (.pair c first rest)) : s.first c = first.value :=
  congrArg Cell.first h.cell_eq

theorem rest_eq (h : s.Stands (.pair c first rest)) : s.rest c = rest.value :=
  congrArg Cell.rest h.cell_eq

theorem covers_of_mentions (h : s.Stands t) (hc : c ∈ t.cells) (hr : r ∈ s.mentions (.cell c)) :
    t.Covers r := by
  induction t with
  | atom v => simp [Tree.cells] at hc
  | pair d first rest ihfirst ihrest =>
    rw [Tree.covers_pair]
    right
    rcases List.mem_cons.mp hc with rfl | hc
    · simp only [Store.mentions, h.first_eq, h.rest_eq, List.mem_filterMap, List.mem_cons,
        List.not_mem_nil, or_false] at hr
      obtain ⟨v, rfl | rfl, href⟩ := hr
      · exact .inl (Tree.covers_of_ref?_value href)
      · exact .inr (Tree.covers_of_ref?_value href)
    · rcases List.mem_append.mp hc with hc | hc
      · exact .inl (ihfirst h.2.1 hc)
      · exact .inr (ihrest h.2.2 hc)

/-- Who holds on to a text holds on to its parts. -/
theorem reached {roots : List Ref} (h : s.Stands t)
    (hroot : ∀ r, t.value.ref? = some r → s.has r = true → s.Reached roots r) (hr : r ∈ t.refs)
    (hhas : s.has r = true) : s.Reached roots r := by
  induction t with
  | atom v =>
    obtain ⟨w, hw, href⟩ := Tree.mem_refs_iff.mp hr
    obtain rfl := List.mem_singleton.mp hw
    exact hroot r href hhas
  | pair c first rest ihfirst ihrest =>
    have hholder : s.Reached roots (.cell c) := hroot _ rfl h.has
    have hslot {v : Value} (hv : v ∈ [s.first c, s.rest c]) (r : Ref) (href : v.ref? = some r)
        (hhas : s.has r = true) : s.Reached roots r :=
      .ref hholder h.has (List.mem_filter.mpr ⟨List.mem_filterMap.mpr ⟨v, hv, href⟩, hhas⟩)
    rw [h.first_eq, h.rest_eq] at hslot
    rw [Tree.refs_pair] at hr
    rcases List.mem_append.mp hr with hr | hr
    · exact ihfirst h.2.1 (hslot (by simp)) hr
    · exact ihrest h.2.2 (hslot (by simp)) hr

theorem of_cells_eq {s' : Store} (h : s.Stands t) (hcells : s'.cells = s.cells) : s'.Stands t := by
  induction t with
  | atom v => trivial
  | pair c first rest ihfirst ihrest => exact ⟨hcells ▸ h.1, ihfirst h.2.1, ihrest h.2.2⟩

theorem has_of_mem (h : s.Stands t) (hc : c ∈ t.cells) : s.has (.cell c) = true := by
  induction t with
  | atom v => simp [Tree.cells] at hc
  | pair d first rest ihfirst ihrest =>
    rcases List.mem_cons.mp hc with rfl | hc
    · exact h.has
    · exact (List.mem_append.mp hc).elim (ihfirst h.2.1) (ihrest h.2.2)

theorem lists (h : s.Stands (.list ts)) : s.Lists (Tree.list ts).value (ts.map (·.2.value)) := by
  induction ts with
  | nil => exact lists_nil_iff.mpr rfl
  | cons p ts ih =>
    refine lists_cons_iff.mpr ⟨p.1, rfl, h.first_eq, ?_⟩
    rw [h.rest_eq]
    exact ih h.2.2

theorem of_append {ts' : List (CellId × Tree)} (h : s.Stands (.list (ts ++ ts'))) :
    s.Stands (.list ts') := by
  induction ts with
  | nil => exact h
  | cons p ts ih => exact ih h.2.2

theorem of_mem {p : CellId × Tree} (h : s.Stands (.list ts)) (hp : p ∈ ts) : s.Stands p.2 := by
  obtain ⟨before, behind, rfl⟩ := List.append_of_mem hp
  exact (of_append h).2.1

theorem nodup (h : s.Stands (.list ts)) : (ts.map (·.1)).Nodup := by
  induction ts with
  | nil => exact List.nodup_nil
  | cons p ts ih =>
    refine List.nodup_cons.mpr ⟨fun hmem => ?_, ih h.2.2⟩
    obtain ⟨q, hq, hcell⟩ := List.mem_map.mp hmem
    obtain ⟨before, behind, rfl⟩ := List.append_of_mem hq
    have hwhole := h.lists
    have hagain := (Stands.of_append h.2.2).lists
    simp only [Tree.list, Tree.value, hcell] at hwhole hagain
    have hlength := congrArg List.length (hwhole.unique hagain)
    simp at hlength
    omega

theorem length_le (h : s.Stands (.list ts)) : ts.length ≤ s.cells.size := by
  have hhere : (ts.map (·.1.index)) ⊆ List.range s.cells.size := by
    intro i hi
    obtain ⟨p, hp, rfl⟩ := List.mem_map.mp hi
    obtain ⟨before, behind, rfl⟩ := List.append_of_mem hp
    have hhas := (of_append h).has
    rw [List.mem_range]
    exact of_decide_eq_true hhas
  have hnodup : (ts.map (·.1.index)).Nodup := by
    have hindex : ts.map (·.1.index) = (ts.map (·.1)).map CellId.index := by rw [List.map_map]; rfl
    rw [hindex]
    exact h.nodup.map fun _ _ heq => congrArg CellId.mk heq
  simpa using hnodup.length_le_of_subset hhere

theorem spine (h : s.Stands (.list ts)) :
    s.spine (Tree.list ts).value = .proper (ts.map (·.2.value)) := by
  have hsteps : (ts.map (·.2.value)).length < s.cells.size + 1 := by
    rw [List.length_map]
    exact Nat.lt_succ_of_le h.length_le
  exact spineWithin_of_lists h.lists hsteps []

end Stands
end Store

namespace Tree

variable {K : Terms} {L : Link K} {spare : Spare} {env : FrameId} {t t' : Tree} {r : Ref}
  {roots roots' others also : List Ref}

/-- Whoever evaluates a text in `env` holds on to the text and to `env`; beyond what a part refers to
only to `others` and `also`. -/
structure HeldBy (t : Tree) (env : FrameId) (others also roots : List Ref) : Prop where
  text : ∀ r, t.value.ref? = some r → r ∈ roots
  scope : .frame env ∈ roots
  rest : others ⊆ roots
  only : ∀ r ∈ roots, r ∈ others ∨ r = .frame env ∨ t.Covers r ∨ r ∈ also

/-- Two texts with the same parts. The closure that only the second evaluation makes refers to the parts
and to `env`. -/
structure Twins (K : Terms) (spare : Spare) (env : FrameId) (t t' : Tree) : Prop where
  some_spare : K.spare = some spare
  refs_iff {r : Ref} : r ∈ t'.refs ↔ r ∈ t.refs
  fixed {r : Ref} : r ∈ t.refs → r.rename K.closure = r
  content_env : spare.content.env = env
  content_body {v : Value} {r : Ref} : v ∈ spare.content.body → v.ref? = some r → r ∈ t.refs

def Own (t t' : Tree) (r : Ref) : Prop := ∃ c, (c ∈ t.cells ∨ c ∈ t'.cells) ∧ r = .cell c

/-- What the parts of a text refer to, and where it is evaluated. -/
def Shared (t : Tree) (env : FrameId) (r : Ref) : Prop := r = .frame env ∨ r ∈ t.refs

namespace Twins

variable (h : Twins K spare env t t')

include h

theorem mem_refs_of_rename (hr : r.rename K.closure ∈ t.refs) : r ∈ t.refs := by
  have heq : r.rename K.closure = r := Ref.rename_injective (h.fixed hr)
  rwa [heq] at hr

private theorem shared_of_rename (hr : Shared t env (r.rename K.closure)) : Shared t env r :=
  hr.imp (fun heq => Ref.rename_injective (t := .frame env) heq) h.mem_refs_of_rename

omit h in
private theorem own_or_shared (hr : t.Covers r) : Own t t' r ∨ Shared t env r :=
  hr.imp (fun ⟨c, hc, heq⟩ => ⟨c, .inl hc, heq⟩) .inr

private theorem own_or_shared_of_rename (hr : t'.Covers (r.rename K.closure)) :
    Own t t' r ∨ Shared t env r := by
  rcases hr with ⟨c, hc, heq⟩ | hr
  · exact .inl ⟨c, .inr hc, Ref.rename_injective (t := .cell c) heq⟩
  · exact .inr (.inr (h.mem_refs_of_rename (h.refs_iff.mp hr)))

/-- Evaluations of the two texts hold on to the same. -/
theorem moored {s s' : Store} (hs : s.Alike L s') (ht : s.Stands t) (ht' : s'.Stands t')
    (hroots : t.HeldBy env others [] roots)
    (hroots' : t'.HeldBy env (others.map (Ref.rename K.closure)) [.closure spare.id] roots') :
    Moored K (Own t t') (Shared t env) s s' roots roots' where
  roots_iff {r} hown hshared := by
    constructor
    · intro hr
      rcases hroots'.only _ hr with hr | hr | hr | hr
      · exact hroots.rest (Ref.rename_mem_map_iff.mp hr)
      · exact absurd (h.shared_of_rename (.inl hr)) hshared
      · exact absurd (h.own_or_shared_of_rename hr) (not_or.mpr ⟨hown, hshared⟩)
      · refine absurd ?_ (Ref.spare_not_mem_map h.some_spare [r])
        rw [List.map_singleton, List.mem_singleton]
        exact (List.mem_singleton.mp hr).symm
    · intro hr
      rcases hroots.only _ hr with hr | hr | hr | hr
      · exact hroots'.rest (Ref.rename_mem_map_iff.mpr hr)
      · exact absurd (.inl hr) hshared
      · exact absurd (own_or_shared hr) (not_or.mpr ⟨hown, hshared⟩)
      · simp at hr
  refs {r u} hown hu := by
    obtain ⟨c, hc | hc, rfl⟩ := hown
    · exact own_or_shared (ht.covers_of_mentions hc (List.mem_filter.mp hu).1)
    · have hhas : s.has (.cell c) = true := (hs.has_eq (.cell c)).symm.trans (ht'.has_of_mem hc)
      rw [← Ref.rename_mem_map_iff (K := K), ← hs.refs_eq hhas] at hu
      exact h.own_or_shared_of_rename (ht'.covers_of_mentions hc (List.mem_filter.mp hu).1)
  reached {r} hshared hhas := by
    rcases hshared with rfl | hr
    · exact ⟨.root hroots.scope, .root hroots'.scope⟩
    · have hhas' : s'.has r = true := by
        rw [← h.fixed hr, hs.has_eq]
        exact hhas
      rw [h.fixed hr]
      exact ⟨ht.reached (fun r href _ => .root (hroots.text r href)) hr hhas,
        ht'.reached (fun r href _ => .root (hroots'.text r href)) (h.refs_iff.mpr hr) hhas'⟩
  own_closure c := by
    rintro ⟨d, -, heq⟩
    simp at heq
  spare {spare'} hK := by
    obtain rfl : spare = spare' := Option.some.inj (h.some_spare.symm.trans hK)
    refine .inr fun u hu => .inr (h.shared_of_rename ?_)
    have hmentions := (List.mem_filter.mp hu).1
    simp only [Store.mentions, hs.spare hK, h.content_env, List.mem_cons, List.mem_filterMap]
      at hmentions
    rcases hmentions with hframe | ⟨v, hv, href⟩
    · exact .inl hframe
    · exact .inr (h.content_body hv href)

end Twins
end Tree
end MiniScheme
