import MiniScheme.Proofs.Alike.Views
import MiniScheme.Proofs.Store.Holders
/-! # References in alike stores

Whether anybody else holds a closure has the same answer in alike stores, if the roots go together. They
need not do so entirely. Two expressions of different shape may be under evaluation that have parts in
common: each evaluation holds on to the pairs of its own expression, the other one maybe not. This makes
no difference as long as both reach the parts.
-/
namespace MiniScheme

def Ref.rename (f : ClosureId → ClosureId) : Ref → Ref
  | closure c => closure (f c)
  | r => r

private theorem Value.ref?_rename (f : ClosureId → ClosureId) (v : Value) :
    (v.rename f).ref? = v.ref?.map (Ref.rename f) := by
  cases v <;> rfl

variable {K : Terms} {L : Link K}

theorem Value.Alike.ref?_eq {v w : Value} (h : v.Alike L w) :
    w.ref? = v.ref?.map (Ref.rename K.closure) := by
  cases h with
  | symbol => rfl
  | same => exact Value.ref?_rename _ _

theorem Values.filterMap_ref?_eq {vs ws : List Value} (h : Values L vs ws) :
    ws.filterMap Value.ref? = (vs.filterMap Value.ref?).map (Ref.rename K.closure) := by
  induction h with
  | nil => rfl
  | @cons v w vs ws hv _ ih =>
    rw [List.filterMap_cons, List.filterMap_cons, hv.ref?_eq, ih]
    cases v.ref? <;> rfl

theorem Ref.rename_injective {r t : Ref} (h : r.rename K.closure = t.rename K.closure) : r = t := by
  cases r <;> cases t <;> simp only [rename, Ref.cell.injEq, Ref.frame.injEq, Ref.closure.injEq,
    reduceCtorEq] at h ⊢
  · exact h
  · exact h
  · exact Terms.closure_injective h

theorem Ref.rename_mem_map_iff {r : Ref} {refs : List Ref} :
    r.rename K.closure ∈ refs.map (Ref.rename K.closure) ↔ r ∈ refs := by
  rw [List.mem_map]
  constructor
  · rintro ⟨t, ht, heq⟩
    exact rename_injective heq ▸ ht
  · exact fun hr => ⟨r, hr, rfl⟩

theorem Ref.spare_not_mem_map {spare : Spare} (hK : K.spare = some spare) (refs : List Ref) :
    .closure spare.id ∉ refs.map (Ref.rename K.closure) := by
  intro hmem
  obtain ⟨t, -, ht⟩ := List.mem_map.mp hmem
  cases t with
  | closure c => exact Terms.closure_ne_spare hK c (Ref.closure.inj ht)
  | _ => simp [rename] at ht

namespace Store

variable {s : Store} {roots : List Ref} {r : Ref}

/-- A root leads to the object. -/
inductive Reached (s : Store) (roots : List Ref) : Ref → Prop
  | root {r : Ref} (mem : r ∈ roots) : Reached s roots r
  | ref {r t : Ref} (holder : Reached s roots r) (here : s.has r = true) (mem : t ∈ s.refs r) :
    Reached s roots t

private theorem Reached.of_subset (h : s.Reached roots r) {more : List Ref} (hmore : roots ⊆ more) :
    s.Reached more r := by
  induction h with
  | root mem => exact .root (hmore mem)
  | ref _ here mem ih => exact .ref ih here mem

/-- What a root leads to is not released, and less so with more roots. -/
theorem Reached.not_released (h : s.Reached roots r) {more : List Ref} (hmore : roots ⊆ more) :
    ¬ s.Released more r := by
  induction h with
  | root mem =>
    rintro ⟨-, unrooted, -⟩
    exact unrooted (hmore mem)
  | ref holder here mem ih =>
    rintro ⟨-, -, holders⟩
    exact ih (holders _ here mem)

private theorem Reached.isSoleReference_eq {c : ClosureId} (h : s.Reached roots (.closure c)) :
    s.isSoleReference c roots = false := by
  rw [Bool.eq_false_iff, ne_eq, isSoleReference_iff]
  rintro ⟨-, unrooted, holders⟩
  cases h with
  | root mem => exact unrooted mem
  | ref holder here mem =>
    exact holder.not_released (List.subset_cons_self _ _) (holders _ here mem)

end Store

namespace Store.Alike

variable {s s' : Store} (h : s.Alike L s') {r t : Ref}

include h

theorem has_eq (r : Ref) : s'.has (r.rename K.closure) = s.has r := by
  cases r with
  | closure c => simp only [Store.has, Ref.rename, h.count, h.count_right, L.closure_lt_iff]
  | _ => simp only [Store.has, Ref.rename, h.cells.size_eq, h.frames.size_eq]

private theorem mentions_eq (hr : s.has r = true) :
    s'.mentions (r.rename K.closure) = (s.mentions r).map (Ref.rename K.closure) := by
  cases r with
  | cell c => exact Values.filterMap_ref?_eq (.cons (h.first c) (.cons (h.rest c) .nil))
  | frame e =>
    have hvalues : (s'.frame e).bindings.filterMap (fun b => b.2.ref?) =
        ((s.frame e).bindings.filterMap (fun b => b.2.ref?)).map (Ref.rename K.closure) := by
      have hbindings := (h.frame e).bindings
      generalize (s.frame e).bindings = bindings at hbindings
      generalize (s'.frame e).bindings = bindings' at hbindings
      induction hbindings with
      | nil => rfl
      | @cons b _ _ _ hb _ ih =>
        rw [List.filterMap_cons, List.filterMap_cons, hb.value.ref?_eq, ih]
        cases b.2.ref? <;> rfl
    simp only [Ref.rename, Store.mentions, (h.frame e).parent, hvalues, List.map_append, List.map_map]
    rfl
  | closure c =>
    have hclosure := h.closure (c := c) (by simpa [Store.has, h.count] using hr)
    simp only [Ref.rename, Store.mentions, hclosure.env, hclosure.body.filterMap_ref?_eq,
      List.map_cons]

theorem refs_eq (hr : s.has r = true) :
    s'.refs (r.rename K.closure) = (s.refs r).map (Ref.rename K.closure) := by
  have hhas : s'.has ∘ Ref.rename K.closure = s.has := funext h.has_eq
  rw [Store.refs, Store.refs, h.mentions_eq hr, List.filter_map, hhas]

theorem exists_ref (ht : s'.has t = true) :
    (∃ r, t = r.rename K.closure ∧ s.has r = true) ∨
      ∃ spare, K.spare = some spare ∧ t = .closure spare.id := by
  have hfound {r : Ref} (hr : r.rename K.closure = t) :
      ∃ r, t = r.rename K.closure ∧ s.has r = true :=
    ⟨r, hr.symm, by rw [← h.has_eq, hr]; exact ht⟩
  cases t with
  | cell c => exact .inl (hfound (r := .cell c) rfl)
  | frame e => exact .inl (hfound (r := .frame e) rfl)
  | closure d =>
    rcases K.exists_closure d with ⟨c, rfl⟩ | ⟨spare, hK, rfl⟩
    · exact .inl (hfound (r := .closure c) rfl)
    · exact .inr ⟨spare, hK, rfl⟩

theorem not_mem_refs_spare {spare : Spare} (hK : K.spare = some spare) (ht : s'.has t = true) :
    .closure spare.id ∉ s'.refs t := by
  intro hmem
  rcases h.exists_ref ht with ⟨r, rfl, hr⟩ | ⟨spare', hK', rfl⟩
  · rw [h.refs_eq hr] at hmem
    exact Ref.spare_not_mem_map hK _ hmem
  · obtain rfl : spare = spare' := Option.some.inj (hK.symm.trans hK')
    have hmentions := (List.mem_filter.mp hmem).1
    simp only [Store.mentions, h.spare hK, List.mem_cons, reduceCtorEq, List.mem_filterMap,
      false_or] at hmentions
    obtain ⟨v, hv, href⟩ := hmentions
    cases v with
    | closure c =>
      obtain rfl : c = spare.id := by simpa [Value.ref?] using href
      exact Nat.lt_irrefl _ (spare.older hv)
    | _ => simp [Value.ref?] at href

private theorem released_spare {spare : Spare} (hK : K.spare = some spare) {roots : List Ref}
    (hroots : .closure spare.id ∉ roots) : s'.Released roots (.closure spare.id) := by
  refine .intro ?_ hroots fun t ht hmem => absurd hmem (h.not_mem_refs_spare hK ht)
  have hle := L.spare_le hK
  simp only [Store.has, h.count_right, K.count_of_some hK, decide_eq_true_eq]
  omega

end Store.Alike

/-- The roots go together but for `own` objects, which both evaluations need not hold, and for `shared`
ones, which both reach. -/
structure Moored (K : Terms) (own shared : Ref → Prop) (s s' : Store) (roots roots' : List Ref) :
    Prop where
  roots_iff {r : Ref} : ¬ own r → ¬ shared r → (r.rename K.closure ∈ roots' ↔ r ∈ roots)
  refs {r t : Ref} : own r → t ∈ s.refs r → own t ∨ shared t
  reached {r : Ref} : shared r → s.has r = true →
    s.Reached roots r ∧ s'.Reached roots' (r.rename K.closure)
  own_closure (c : ClosureId) : ¬ own (.closure c)
  spare {spare : Spare} : K.spare = some spare → .closure spare.id ∉ roots' ∨
    ∀ t, t.rename K.closure ∈ s'.refs (.closure spare.id) → own t ∨ shared t

namespace Moored

variable {own shared : Ref → Prop} {s s' : Store} {roots roots' : List Ref} {c : ClosureId} {r : Ref}
  (h : Moored K own shared s s' roots roots') (hs : s.Alike L s')

include h hs

theorem holders_right (hown : ¬ own r) (hshared : ¬ shared r)
    (hleft : ∀ t, s.has t = true → r ∈ s.refs t → s.Released (.closure c :: roots) t ∧
      (¬ own t → ¬ shared t → s'.Released (.closure (K.closure c) :: roots') (t.rename K.closure))) :
    ∀ t, s'.has t = true → r.rename K.closure ∈ s'.refs t →
      s'.Released (.closure (K.closure c) :: roots') t := by
  intro t' ht' hmem
  rcases hs.exists_ref ht' with ⟨t, rfl, ht⟩ | ⟨spare, hK, rfl⟩
  · rw [hs.refs_eq ht, Ref.rename_mem_map_iff] at hmem
    obtain ⟨hreleased, hnext⟩ := hleft t ht hmem
    refine hnext (fun hown' => ?_) fun hshared' => ?_
    · exact (h.refs hown' hmem).elim hown hshared
    · exact (h.reached hshared' ht).1.not_released (List.subset_cons_self _ _) hreleased
  · rcases h.spare hK with hroots | hrefs
    · have hne : Ref.closure spare.id ≠ .closure (K.closure c) := fun heq =>
        Terms.closure_ne_spare hK c (Ref.closure.inj heq).symm
      exact hs.released_spare hK (List.not_mem_cons_of_ne_of_not_mem hne hroots)
    · exact absurd (hrefs r hmem) (not_or.mpr ⟨hown, hshared⟩)

theorem holders_left (hown : ¬ own r) (hshared : ¬ shared r)
    (hright : ∀ t, s.has t = true → r.rename K.closure ∈ s'.refs (t.rename K.closure) →
      s'.Released (.closure (K.closure c) :: roots') (t.rename K.closure) ∧
      (¬ own t → ¬ shared t → s.Released (.closure c :: roots) t)) :
    ∀ t, s.has t = true → r ∈ s.refs t → s.Released (.closure c :: roots) t := by
  intro t ht hmem
  have hmem' : r.rename K.closure ∈ s'.refs (t.rename K.closure) := by
    rw [hs.refs_eq ht, Ref.rename_mem_map_iff]
    exact hmem
  obtain ⟨hreleased, hnext⟩ := hright t ht hmem'
  refine hnext (fun hown' => ?_) fun hshared' => ?_
  · exact (h.refs hown' hmem).elim hown hshared
  · exact (h.reached hshared' ht).2.not_released (List.subset_cons_self _ _) hreleased

omit hs in
private theorem unrooted_iff (hown : ¬ own r) (hshared : ¬ shared r) :
    r.rename K.closure ∉ .closure (K.closure c) :: roots' ↔ r ∉ .closure c :: roots := by
  have hclosure : r.rename K.closure = .closure (K.closure c) ↔ r = .closure c :=
    ⟨fun heq => Ref.rename_injective (t := .closure c) heq, fun heq => heq ▸ rfl⟩
  rw [List.mem_cons, List.mem_cons, hclosure, h.roots_iff hown hshared]

private theorem released_right (hr : s.Released (.closure c :: roots) r) (hown : ¬ own r)
    (hshared : ¬ shared r) : s'.Released (.closure (K.closure c) :: roots') (r.rename K.closure) := by
  induction hr with
  | @intro r here unrooted holders ih =>
    refine .intro ((hs.has_eq r).trans here) ((h.unrooted_iff hown hshared).mpr unrooted) ?_
    exact h.holders_right hs hown hshared fun t ht hmem => ⟨holders t ht hmem, ih t ht hmem⟩

private theorem released_left
    (hr : s'.Released (.closure (K.closure c) :: roots') (r.rename K.closure)) (hown : ¬ own r)
    (hshared : ¬ shared r) : s.Released (.closure c :: roots) r := by
  generalize ht : r.rename K.closure = t at hr
  induction hr generalizing r with
  | intro here unrooted holders ih =>
    subst ht
    refine .intro ((hs.has_eq r).symm.trans here) ((h.unrooted_iff hown hshared).mp unrooted) ?_
    refine h.holders_left hs hown hshared fun t ht hmem => ?_
    have ht' := (hs.has_eq t).trans ht
    exact ⟨holders _ ht' hmem, fun hown hshared => ih _ ht' hmem hown hshared rfl⟩

/-- Both evaluations answer alike whether anybody else holds a closure. -/
theorem isSoleReference_eq (c : ClosureId) :
    s'.isSoleReference (K.closure c) roots' = s.isSoleReference c roots := by
  have hhas := hs.has_eq (.closure c)
  by_cases hshared : shared (.closure c)
  · by_cases hc : s.has (.closure c) = true
    · obtain ⟨hleft, hright⟩ := h.reached hshared hc
      rw [hleft.isSoleReference_eq, hright.isSoleReference_eq]
    · have hsole : ¬ s.isSoleReference c roots = true := fun hsole =>
        hc (Store.isSoleReference_iff.mp hsole).1
      have hsole' : ¬ s'.isSoleReference (K.closure c) roots' = true := fun hsole =>
        hc (hhas.symm.trans (Store.isSoleReference_iff.mp hsole).1)
      rw [Bool.eq_false_iff.mpr hsole, Bool.eq_false_iff.mpr hsole']
  · have hown := h.own_closure c
    rw [Bool.eq_iff_iff, Store.isSoleReference_iff, Store.isSoleReference_iff]
    have hroots : .closure (K.closure c) ∉ roots' ↔ .closure c ∉ roots :=
      not_congr (h.roots_iff hown hshared)
    refine and_congr (by rw [← hhas]; rfl) (and_congr hroots ⟨fun hholders => ?_, fun hholders => ?_⟩)
    · refine h.holders_left hs hown hshared fun t ht hmem => ?_
      have hreleased := hholders _ ((hs.has_eq t).trans ht) hmem
      exact ⟨hreleased, h.released_left hs hreleased⟩
    · refine h.holders_right hs hown hshared fun t ht hmem => ?_
      exact ⟨hholders t ht hmem, h.released_right hs (hholders t ht hmem)⟩

end Moored

theorem moored_of_eq {s s' : Store} {roots roots' : List Ref}
    (h : roots' = roots.map (Ref.rename K.closure)) :
    Moored K (fun _ => False) (fun _ => False) s s' roots roots' where
  roots_iff _ _ := by rw [h, Ref.rename_mem_map_iff]
  refs := False.elim
  reached := False.elim
  own_closure _ := id
  spare hK := .inl (h ▸ Ref.spare_not_mem_map hK roots)

theorem Moored.append {own shared : Ref → Prop} {s s' : Store} {roots roots' : List Ref}
    (h : Moored K own shared s s' roots roots') (more : List Ref) :
    Moored K own shared s s' (roots ++ more) (roots' ++ more.map (Ref.rename K.closure)) where
  roots_iff hown hshared := by
    rw [List.mem_append, List.mem_append, Ref.rename_mem_map_iff, h.roots_iff hown hshared]
  refs := h.refs
  reached hshared hhas :=
    ⟨(h.reached hshared hhas).1.of_subset (List.subset_append_left _ _),
      (h.reached hshared hhas).2.of_subset (List.subset_append_left _ _)⟩
  own_closure := h.own_closure
  spare hK := by
    refine (h.spare hK).imp (fun hroots hmem => ?_) id
    exact (List.mem_append.mp hmem).elim hroots (Ref.spare_not_mem_map hK more)

end MiniScheme
