import Mathlib.Data.List.Nodup
import MiniScheme.Store.Sharing
/-! # Who is still held

Counting references and giving up what has none comes to this: an object is released if no root refers
to it and whatever refers to it is released. A closure is held by its own value alone if it is no root
and whatever refers to it is released.
-/
namespace MiniScheme.Store

variable {s : Store} {roots : List Ref} {r : Ref}

/-- No root refers to the object, and only released objects do. -/
inductive Released (s : Store) (roots : List Ref) : Ref → Prop
  | intro {r : Ref} (here : s.has r = true) (unrooted : r ∉ roots)
    (holders : ∀ h, s.has h = true → r ∈ s.refs h → Released s roots h) : Released s roots r

private theorem Released.of_subset (h : s.Released roots r) {fewer : List Ref}
    (hfewer : fewer ⊆ roots) :
    s.Released fewer r := by
  induction h with
  | intro here unrooted _ ih => exact .intro here (fun hr => unrooted (hfewer hr)) ih

private theorem has_of_mem_refs {h : Ref} (hr : r ∈ s.refs h) : s.has r = true :=
  (List.mem_filter.mp hr).2

theorem mem_objects : r ∈ s.objects ↔ s.has r = true := by
  cases r with
  | cell c =>
    simp only [objects, Store.has, List.mem_append, List.mem_map, List.mem_range, Ref.cell.injEq,
      reduceCtorEq, and_false, exists_false, or_false, decide_eq_true_eq]
    exact ⟨fun ⟨i, hi, hc⟩ => hc ▸ hi, fun hc => ⟨c.index, hc, rfl⟩⟩
  | frame e =>
    simp only [objects, Store.has, List.mem_append, List.mem_map, List.mem_range, Ref.frame.injEq,
      reduceCtorEq, and_false, exists_false, or_false, false_or, decide_eq_true_eq]
    exact ⟨fun ⟨i, hi, he⟩ => he ▸ hi, fun he => ⟨e.index, he, rfl⟩⟩
  | closure c =>
    simp only [objects, Store.has, List.mem_append, List.mem_map, List.mem_range,
      Ref.closure.injEq, reduceCtorEq, and_false, exists_false, or_false, false_or,
      decide_eq_true_eq]
    exact ⟨fun ⟨i, hi, hc⟩ => hc ▸ hi, fun hc => ⟨c.index, hc, rfl⟩⟩

private theorem nodup_objects (s : Store) : s.objects.Nodup := by
  have hrange {f : Nat → Ref} (hf : ∀ i j, f i = f j → i = j) (n : Nat) :
      ((List.range n).map f).Nodup :=
    List.nodup_range.map fun i j hij => hf i j hij
  unfold objects
  refine List.Nodup.append (List.Nodup.append (hrange ?_ _) (hrange ?_ _) ?_) (hrange ?_ _) ?_
  all_goals simp +contextual [List.disjoint_left]
  rintro _ (⟨i, -, rfl⟩ | ⟨i, -, rfl⟩) <;> simp

private theorem length_objects (s : Store) : s.objects.length = s.objectCount := by
  simp [objects, objectCount, Nat.add_assoc]

private theorem slot_lt (h : s.has r = true) : s.slot r < s.objectCount := by
  cases r <;> simp [Store.has, slot, objectCount] at h ⊢ <;> omega

private theorem slot_injective {t : Ref} (hr : s.has r = true) (ht : s.has t = true)
    (h : s.slot r = s.slot t) : r = t := by
  cases r <;> cases t <;> simp [Store.has, slot] at hr ht h ⊢
  case cell.cell c d => exact congrArg CellId.mk h
  case frame.frame e f => exact congrArg FrameId.mk h
  case closure.closure c d => exact congrArg ClosureId.mk h
  all_goals omega

/-- The array says how often each object occurs in a list of references. -/
structure Counts (s : Store) (counts : Array Nat) (refs : List Ref) : Prop where
  size : counts.size = s.objectCount
  count : ∀ r, s.has r = true → counts.getD (s.slot r) 0 = refs.count r

namespace Counts

variable {counts : Array Nat} {refs refs' : List Ref}

private theorem perm (h : s.Counts counts refs) (hperm : refs.Perm refs') : s.Counts counts refs' :=
  ⟨h.size, fun r hr => (h.count r hr).trans (hperm.count_eq r)⟩

theorem set (h : s.Counts counts refs) (hr : s.has r = true) {n : Nat} (hn : refs'.count r = n)
    (hother : ∀ t, t ≠ r → refs'.count t = refs.count t) :
    s.Counts (counts.setIfInBounds (s.slot r) n) refs' := by
  refine ⟨by simpa using h.size, fun t ht => ?_⟩
  have hslot : s.slot t < counts.size := by rw [h.size]; exact slot_lt ht
  by_cases htr : t = r
  · subst htr
    simp [Array.getD_eq_getD_getElem?, hslot, hn]
  · have hne : s.slot r ≠ s.slot t := fun heq => htr (slot_injective ht hr heq.symm)
    rw [hother t htr, ← h.count t ht]
    simp [Array.getD_eq_getD_getElem?, Array.getElem?_setIfInBounds_ne hne]

private theorem countRefs {more : List Ref} (h : s.Counts counts refs)
    (hmore : ∀ r ∈ more, s.has r = true) : s.Counts (s.countRefs counts more) (refs ++ more) := by
  induction more generalizing counts refs with
  | nil => simpa [Store.countRefs] using h
  | cons r more ih =>
    have hr : s.has r = true := hmore r (by simp)
    have hslot : s.slot r < counts.size := by rw [h.size]; exact slot_lt hr
    have hmodify : counts.modify (s.slot r) (· + 1) =
        counts.setIfInBounds (s.slot r) (counts.getD (s.slot r) 0 + 1) := by
      apply Array.ext_getElem?
      intro i
      by_cases hi : s.slot r = i
      · subst hi
        simp [Array.getElem_modify, Array.getD_eq_getD_getElem?, hslot]
      · simp [Array.getElem?_modify, Array.getElem?_setIfInBounds_ne hi, hi]
    have hnext : s.Counts (counts.modify (s.slot r) (· + 1)) (refs ++ [r]) := by
      rw [hmodify]
      apply h.set hr
      · simp [h.count r hr]
      · intro t ht
        simp [ht.symm]
    have hrest := ih hnext (fun t ht => hmore t (by simp [ht]))
    simpa [Store.countRefs] using hrest

end Counts

theorem counts_all {counts : Array Nat} {refs : List Ref} (h : s.Counts counts refs)
    (objects : List Ref) :
    s.Counts (objects.foldl (fun counts r => s.countRefs counts (s.refs r)) counts)
      (refs ++ objects.flatMap s.refs) := by
  induction objects generalizing counts refs with
  | nil => simpa using h
  | cons r objects ih =>
    have hrest := ih (h.countRefs fun _ => has_of_mem_refs (h := r))
    simpa [List.append_assoc] using hrest

theorem counts_dropRefs {counts : Array Nat} {refs rest : List Ref}
    (h : s.Counts counts (refs ++ rest)) (hrefs : ∀ r ∈ refs, s.has r = true)
    (unheld : List Ref) :
    s.Counts (s.dropRefs refs unheld counts).2 rest ∧
      ∃ more, (s.dropRefs refs unheld counts).1 = more ++ unheld ∧ more.Nodup ∧
        ∀ r, r ∈ more ↔ r ∈ refs ∧ r ∉ rest := by
  induction refs generalizing counts unheld with
  | nil => exact ⟨h, [], rfl, List.nodup_nil, by simp⟩
  | cons r refs ih =>
    have hr : s.has r = true := hrefs r (by simp)
    have hleft : counts.getD (s.slot r) 0 - 1 = (refs ++ rest).count r := by
      rw [h.count r hr]
      simp
    have hnext : s.Counts (counts.setIfInBounds (s.slot r) (counts.getD (s.slot r) 0 - 1))
        (refs ++ rest) := by
      apply h.set hr hleft.symm
      intro t ht
      simp [ht.symm]
    rw [dropRefs, hleft]
    rw [hleft] at hnext
    have hrest := fun unheld => ih hnext (fun t ht => hrefs t (by simp [ht])) unheld
    by_cases hgone : (refs ++ rest).count r = 0
    · obtain ⟨hcounts, more, hmore, hnodup, hmem⟩ := hrest (r :: unheld)
      have habsent : r ∉ refs ++ rest := List.count_eq_zero.mp hgone
      simp only [List.mem_append, not_or] at habsent
      simp only [hgone, if_true] at hcounts hmore ⊢
      refine ⟨hcounts, more ++ [r], by simp [hmore], ?_, fun t => ?_⟩
      · have hr : r ∉ more := fun hr => habsent.1 ((hmem r).mp hr).1
        exact hnodup.append (List.nodup_singleton r) (by simpa [List.disjoint_left] using hr)
      · by_cases htr : t = r
        · subst htr
          simp [habsent]
        · simp [hmem, htr]
    · obtain ⟨hcounts, more, hmore, hnodup, hmem⟩ := hrest unheld
      have hpresent : r ∈ refs ++ rest := List.count_pos_iff.mp (Nat.pos_of_ne_zero hgone)
      simp only [if_neg hgone]
      refine ⟨hcounts, more, hmore, hnodup, fun t => ?_⟩
      by_cases htr : t = r
      · subst htr
        simp only [List.mem_append] at hpresent
        simp only [hmem, List.mem_cons, true_or, true_and]
        tauto
      · simp [hmem, htr]

/-- The references from roots and from objects that are not given up. -/
def kept (s : Store) (roots given : List Ref) : List Ref :=
  roots.filter s.has ++ (s.objects.filter (fun r => r ∉ given)).flatMap s.refs

private theorem not_mem_kept {given : List Ref} (hr : s.has r = true) :
    r ∉ s.kept roots given ↔
      r ∉ roots ∧ ∀ h, s.has h = true → h ∉ given → r ∉ s.refs h := by
  simp [kept, mem_objects, hr]

theorem kept_perm {given : List Ref} (hr : s.has r = true) (hnew : r ∉ given) :
    (s.kept roots given).Perm (s.refs r ++ s.kept roots (r :: given)) := by
  have hfilter : (s.objects.filter (fun t => t ∉ given)).Perm
      (r :: s.objects.filter (fun t => t ∉ r :: given)) := by
    apply (List.perm_ext_iff_of_nodup ((nodup_objects s).filter _) _).mpr
    · intro t
      by_cases htr : t = r
      · subst htr
        simp [mem_objects, hr, hnew]
      · simp [htr]
    · refine List.nodup_cons.mpr ⟨by simp, (nodup_objects s).filter _⟩
  have hflat := hfilter.flatMap_right s.refs
  rw [List.flatMap_cons] at hflat
  calc s.kept roots given
    _ = roots.filter s.has ++ (s.objects.filter (fun t => t ∉ given)).flatMap s.refs := rfl
    _ |>.Perm (roots.filter s.has ++
          (s.refs r ++ (s.objects.filter (fun t => t ∉ r :: given)).flatMap s.refs)) :=
        hflat.append_left _
    _ |>.Perm (s.refs r ++ s.kept roots (r :: given)) := by
        unfold kept
        rw [← List.append_assoc, ← List.append_assoc]
        exact List.perm_append_comm.append_right _

/-- A moment of giving up: the counts are those of the references kept, and what is not referred to
any more is given up already or unheld. -/
structure GivingUp (s : Store) (roots given unheld : List Ref) (counts : Array Nat) : Prop where
  counts : s.Counts counts (s.kept roots given)
  nodup : (unheld ++ given).Nodup
  has : ∀ r ∈ unheld ++ given, s.has r = true
  mem : ∀ r, s.has r = true → (r ∈ unheld ++ given ↔ r ∉ s.kept roots given)
  released : ∀ r ∈ given, s.Released roots r

namespace GivingUp

variable {given unheld : List Ref} {counts : Array Nat}

theorem start (h : s.Counts counts (s.kept roots [])) :
    s.GivingUp roots [] (s.objects.filter fun r => counts.getD (s.slot r) 0 == 0) counts where
  counts := h
  nodup := by simpa using (nodup_objects s).filter _
  has := by simp +contextual [mem_objects]
  mem r hr := by
    rw [List.append_nil, List.mem_filter, mem_objects, h.count r hr, beq_iff_eq,
      List.count_eq_zero]
    simp [hr]
  released := by simp

private theorem released_of_unheld (h : s.GivingUp roots given unheld counts) (hr : r ∈ unheld) :
    s.Released roots r := by
  have hhas := h.has r (by simp [hr])
  have hfree := (h.mem r hhas).mp (by simp [hr])
  rw [not_mem_kept hhas] at hfree
  refine .intro hhas hfree.1 fun t ht hrefs => h.released t ?_
  by_contra hgiven
  exact hfree.2 t ht hgiven hrefs

theorem next (h : s.GivingUp roots given (r :: unheld) counts) :
    s.GivingUp roots (r :: given) (s.dropRefs (s.refs r) unheld counts).1
      (s.dropRefs (s.refs r) unheld counts).2 := by
  have hr : s.has r = true := h.has r (by simp)
  have hnodup := h.nodup
  simp only [List.cons_append, List.nodup_cons, List.mem_append, not_or] at hnodup
  have hperm : (s.kept roots given).Perm (s.refs r ++ s.kept roots (r :: given)) :=
    kept_perm hr hnodup.1.2
  obtain ⟨hcounts, more, hmore, hmoreNodup, hmem⟩ :=
    counts_dropRefs (h.counts.perm hperm) (fun _ => has_of_mem_refs) unheld
  rw [hmore]
  have hhas : ∀ t ∈ more, s.has t = true := fun t ht => has_of_mem_refs ((hmem t).mp ht).1
  -- What the object referred to had a count, so it was not among the unheld.
  have hfresh : ∀ t ∈ more, t ∉ r :: unheld ++ given := by
    intro t ht hbefore
    refine (h.mem t (hhas t ht)).mp hbefore (hperm.mem_iff.mpr ?_)
    simp [((hmem t).mp ht).1]
  have hsplit : (more ++ unheld ++ r :: given).Perm (more ++ (r :: unheld ++ given)) := by
    rw [List.append_assoc]
    exact List.Perm.append_left more List.perm_middle
  refine ⟨hcounts, ?_, ?_, ?_, ?_⟩
  · exact hsplit.nodup_iff.mpr (hmoreNodup.append h.nodup (List.disjoint_left.mpr hfresh))
  · intro t ht
    rcases List.mem_append.mp (hsplit.mem_iff.mp ht) with ht | ht
    · exact hhas t ht
    · exact h.has t ht
  · intro t ht
    have hbefore := h.mem t ht
    rw [hperm.mem_iff, List.mem_append (s := s.refs r)] at hbefore
    rw [hsplit.mem_iff, List.mem_append, hbefore, hmem]
    tauto
  · intro t ht
    rcases List.mem_cons.mp ht with rfl | ht
    · exact h.released_of_unheld (by simp)
    · exact h.released t ht

theorem giveUp (h : s.GivingUp roots given unheld counts) {steps : Nat}
    (hsteps : given.length + steps = s.objectCount) :
    ∃ given, s.GivingUp roots given [] (s.giveUp steps unheld counts) := by
  induction steps generalizing given unheld counts with
  | zero =>
    have hlength : (unheld ++ given).length ≤ s.objects.length :=
      h.nodup.length_le_of_subset fun r hr => mem_objects.mpr (h.has r hr)
    rw [length_objects, List.length_append] at hlength
    obtain rfl : unheld = [] := List.eq_nil_of_length_eq_zero (by omega)
    exact ⟨given, h⟩
  | succ steps ih =>
    cases unheld with
    | nil => exact ⟨given, h⟩
    | cons r unheld => exact ih h.next (by simp only [List.length_cons]; omega)

/-- In the end exactly the released objects are given up. -/
theorem mem_iff (h : s.GivingUp roots given [] counts) : r ∈ given ↔ s.Released roots r := by
  refine ⟨h.released r, fun hreleased => ?_⟩
  induction hreleased with
  | @intro r hr hroot _ ih =>
    refine (h.mem r hr).mpr ((not_mem_kept hr).mpr ⟨hroot, fun t ht hgiven hrefs => ?_⟩)
    exact hgiven (ih t ht hrefs)

end GivingUp

/-- The references counted in the end are those from roots and from what is not released. -/
theorem counts_referenceCounts (s : Store) (roots : List Ref) :
    ∃ given, (∀ r, r ∈ given ↔ s.Released roots r) ∧
      s.Counts (s.referenceCounts roots) (s.kept roots given) := by
  have hempty : s.Counts (Array.replicate s.objectCount 0) [] := by
    refine ⟨by simp, fun r hr => ?_⟩
    simp [Array.getD_eq_getD_getElem?, slot_lt hr]
  have hexist : ∀ r ∈ roots.filter s.has, s.has r = true := fun r hr => (List.mem_filter.mp hr).2
  have hroots := hempty.countRefs hexist
  have hall := counts_all hroots s.objects
  have hkept : s.kept roots [] = roots.filter s.has ++ s.objects.flatMap s.refs := by
    simp [kept]
  rw [List.nil_append, ← hkept] at hall
  obtain ⟨given, hend⟩ := (GivingUp.start hall).giveUp (Nat.zero_add s.objectCount)
  exact ⟨given, fun r => hend.mem_iff, hend.counts⟩

/-- A closure is held by its own value alone if it is no root and only released objects refer to
it. -/
theorem isSoleReference_iff {c : ClosureId} :
    s.isSoleReference c roots = true ↔ s.has (.closure c) = true ∧ .closure c ∉ roots ∧
      ∀ h, s.has h = true → .closure c ∈ s.refs h → s.Released (.closure c :: roots) h := by
  obtain ⟨given, hgiven, hcounts⟩ := counts_referenceCounts s (.closure c :: roots)
  unfold isSoleReference
  by_cases hc : s.has (.closure c) = true
  · have hkept : s.kept (.closure c :: roots) given =
        .closure c :: s.kept roots given := by
      simp [kept, hc]
    rw [beq_iff_eq, hcounts.count _ hc, hkept, List.count_cons_self, Nat.add_eq_right,
      List.count_eq_zero, not_mem_kept hc]
    simp only [hc, true_and, ← hgiven]
    refine and_congr_right fun _ => forall₂_congr fun t ht => ?_
    tauto
  · have hslot : ¬ s.slot (.closure c) < (s.referenceCounts (.closure c :: roots)).size := by
      rw [hcounts.size]
      simp only [Store.has, decide_eq_true_eq] at hc
      simp only [slot, objectCount]
      omega
    simp [Array.getD, hslot, hc]

theorem isSoleReference_congr (c : ClosureId) {roots' : List Ref}
    (h : ∀ r, r ∈ roots' ↔ r ∈ roots) : s.isSoleReference c roots' = s.isSoleReference c roots := by
  have hreleased (t : Ref) :
      s.Released (.closure c :: roots') t ↔ s.Released (.closure c :: roots) t :=
    ⟨fun ht => ht.of_subset (List.cons_subset_cons _ fun r hr => (h r).mpr hr),
      fun ht => ht.of_subset (List.cons_subset_cons _ fun r hr => (h r).mp hr)⟩
  rw [Bool.eq_iff_iff, isSoleReference_iff, isSoleReference_iff]
  simp only [h, hreleased]

end MiniScheme.Store
