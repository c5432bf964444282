import MiniScheme.Equality
import MiniScheme.Proofs.Store.Unshared
/-! # Equality of unfoldings

Two values unfold to the same tree if every way down from one is a way down from the other and ends
there in the same atom, or in a pair as well. A circle unfolds without end, so this makes sense for
circular values too. Comparison decides it as soon as one of the two values is on no circle: it goes
down both at once, and the tree of that value bounds how deep.

A pair that is compared with itself is skipped. Instead of this one shortcut the proofs take any
that skips nothing but such pairs, down to the one that skips nothing at all.
-/
namespace MiniScheme

open Equality

namespace Value

/-- Both are pairs, or they are the same atom. -/
def Matches (a b : Value) : Prop := (a.isPair = true ∧ b.isPair = true) ∨ a.same b = true

theorem matches_iff_mark {a b : Value} : a.Matches b ↔ Mark.of a = Mark.of b := by
  unfold Matches
  cases a <;> cases b <;> simp [isPair, same, Mark.of, Symbol.same]

private theorem not_isPair_of_same {a b : Value} (h : a.same b = true)
    (hpair : a.isPair = false ∨ b.isPair = false) : a.isPair = false ∧ b.isPair = false := by
  cases a <;> cases b <;> simp_all [same, isPair]

end Value

namespace Store

variable {s : Store} {a b c v w : Value} {p : List Slot}

/-- The values unfold to the same tree of atoms. -/
def SameUnfolding (s : Store) (a b : Value) : Prop :=
  ∀ p, (∀ v, s.Leads a p v → ∃ w, s.Leads b p w ∧ v.Matches w) ∧
    ∀ w, s.Leads b p w → ∃ v, s.Leads a p v ∧ v.Matches w

theorem sameUnfolding_refl (s : Store) (a : Value) : s.SameUnfolding a a := by
  intro p
  constructor <;> intro v hv <;> exact ⟨v, hv, .inr v.same_self⟩

theorem SameUnfolding.symm (h : s.SameUnfolding a b) : s.SameUnfolding b a := by
  intro p
  constructor
  · intro v hv
    obtain ⟨w, hw, hmatches⟩ := (h p).2 v hv
    exact ⟨w, hw, Value.matches_iff_mark.mpr (Value.matches_iff_mark.mp hmatches).symm⟩
  · intro w hw
    obtain ⟨v, hv, hmatches⟩ := (h p).1 w hw
    exact ⟨v, hv, Value.matches_iff_mark.mpr (Value.matches_iff_mark.mp hmatches).symm⟩

theorem SameUnfolding.trans (h : s.SameUnfolding a b) (h' : s.SameUnfolding b c) :
    s.SameUnfolding a c := by
  have hcompose {x y z : Value} (hxy : x.Matches y) (hyz : y.Matches z) : x.Matches z :=
    Value.matches_iff_mark.mpr
      ((Value.matches_iff_mark.mp hxy).trans (Value.matches_iff_mark.mp hyz))
  intro p
  constructor
  · intro v hv
    obtain ⟨w, hw, hvw⟩ := (h p).1 v hv
    obtain ⟨u, hu, hwu⟩ := (h' p).1 w hw
    exact ⟨u, hu, hcompose hvw hwu⟩
  · intro u hu
    obtain ⟨w, hw, hwu⟩ := (h' p).2 u hu
    obtain ⟨v, hv, hvw⟩ := (h p).2 w hw
    exact ⟨v, hv, hcompose hvw hwu⟩

private theorem leads_of_not_isPair (hv : v.isPair = false) : s.Leads v p w ↔ p = [] ∧ w = v := by
  constructor
  · intro h
    cases h with
    | here _ => exact ⟨rfl, rfl⟩
    | first _ => simp [Value.isPair] at hv
    | rest _ => simp [Value.isPair] at hv
  · rintro ⟨rfl, rfl⟩
    exact .here w

private theorem leads_nil : s.Leads v [] w ↔ w = v := by
  constructor
  · intro h
    cases h
    rfl
  · rintro rfl
    exact .here w

private theorem leads_first {x : CellId} :
    s.Leads (.pair x) (.first :: p) v ↔ s.Leads (s.first x) p v := by
  constructor
  · intro h
    cases h with
    | first h => exact h
  · exact .first

private theorem leads_rest {x : CellId} :
    s.Leads (.pair x) (.rest :: p) v ↔ s.Leads (s.rest x) p v := by
  constructor
  · intro h
    cases h with
    | rest h => exact h
  · exact .rest

theorem sameUnfolding_pair_iff {x y : CellId} :
    s.SameUnfolding (.pair x) (.pair y) ↔
      s.SameUnfolding (s.first x) (s.first y) ∧ s.SameUnfolding (s.rest x) (s.rest y) := by
  constructor
  · intro h
    constructor
    · intro p
      simpa only [leads_first] using h (.first :: p)
    · intro p
      simpa only [leads_rest] using h (.rest :: p)
  · rintro ⟨hfirst, hrest⟩ p
    match p with
    | [] => simp [leads_nil, Value.Matches, Value.isPair]
    | .first :: p => simpa only [leads_first] using hfirst p
    | .rest :: p => simpa only [leads_rest] using hrest p

theorem sameUnfolding_iff_same (hatom : a.isPair = false ∨ b.isPair = false) :
    s.SameUnfolding a b ↔ a.same b = true := by
  constructor
  · intro h
    obtain ⟨w, hw, hmatches⟩ := (h []).1 a (.here a)
    obtain rfl := leads_nil.mp hw
    rcases hmatches with ⟨ha, hb⟩ | hsame
    · simp [ha, hb] at hatom
    · exact hsame
  · intro hsame p
    obtain ⟨ha, hb⟩ := Value.not_isPair_of_same hsame hatom
    simp only [leads_of_not_isPair ha, leads_of_not_isPair hb]
    constructor
    · rintro v ⟨rfl, rfl⟩
      exact ⟨b, ⟨rfl, rfl⟩, .inr hsame⟩
    · rintro w ⟨rfl, rfl⟩
      exact ⟨a, ⟨rfl, rfl⟩, .inr hsame⟩

end Store

namespace Equality

variable {s : Store} {skip : CellId → CellId → Bool} {pending : List Pending}

/-- Compare all that is pending, where `skip` tells which pairs count as equal as they are. -/
def compareSkipping (skip : CellId → CellId → Bool) (s : Store) : List Pending → Option Bool
  | [] => some true
  | ⟨.pair x, .pair y, room⟩ :: rest =>
    if skip x y then compareSkipping skip s rest
    else
      match room with
      | 0 => none
      | room + 1 =>
        compareSkipping skip s
          (⟨s.first x, s.first y, room⟩ :: ⟨s.rest x, s.rest y, room⟩ :: rest)
  | ⟨a, b, _⟩ :: rest => if a.same b then compareSkipping skip s rest else some false
termination_by pending => pendingWeight pending
decreasing_by
  · exact Nat.lt_add_of_pos_left (nestingWeight_pos _)
  · simp only [pendingWeight, nestingWeight]
    have := nestingWeight_pos room
    omega
  · exact Nat.lt_add_of_pos_left (nestingWeight_pos _)

private theorem isPair_eq_false_of {a b : Value} (h : ∀ x y, a = .pair x → b = .pair y → False) :
    a.isPair = false ∨ b.isPair = false := by
  cases a with
  | pair x =>
    cases b with
    | pair y => exact (h x y rfl rfl).elim
    | _ => exact .inr rfl
  | _ => exact .inl rfl

theorem compareAll_eq_compareSkipping (s : Store) (pending : List Pending) :
    compareAll s pending = compareSkipping (fun x y => decide (x = y)) s pending := by
  fun_induction compareSkipping (fun x y => decide (x = y)) s pending with
  | case1 => rw [compareAll]
  | case2 x y room rest hxy ih => cases room <;> simp_all [compareAll]
  | case3 x y rest hxy => simp_all [compareAll]
  | case4 x y rest hxy room ih => simp_all [compareAll]
  | case5 a b room rest hpair hsame ih => rw [compareAll, if_pos hsame, ih]; exact hpair
  | case6 a b room rest hpair hsame => rw [compareAll, if_neg hsame]; exact hpair

/-- One of the two unfolds, no deeper than there is room. -/
def Pending.Bounded (s : Store) (p : Pending) : Prop :=
  ∃ t, (s.Unfolds p.left t ∨ s.Unfolds p.right t) ∧ t.height ≤ p.room

theorem unfolds_slots {x : CellId} {t : Tree} {room : Nat} (ht : s.Unfolds (.pair x) t)
    (hroom : t.height ≤ room) :
    ∃ n first rest, room = n + 1 ∧ (s.Unfolds (s.first x) first ∧ first.height ≤ n) ∧
      s.Unfolds (s.rest x) rest ∧ rest.height ≤ n := by
  cases ht with
  | atom _ hv => simp [Value.isPair] at hv
  | @pair _ first rest _ hfirst hrest =>
    rw [Tree.height] at hroom
    exact ⟨room - 1, first, rest, by omega, ⟨hfirst, by omega⟩, hrest, by omega⟩

private theorem Pending.Bounded.slots {x y : CellId} {room : Nat}
    (h : (⟨.pair x, .pair y, room⟩ : Pending).Bounded s) :
    ∃ n, room = n + 1 ∧ (⟨s.first x, s.first y, n⟩ : Pending).Bounded s ∧
      (⟨s.rest x, s.rest y, n⟩ : Pending).Bounded s := by
  obtain ⟨t, ht | ht, hroom⟩ := h
  · obtain ⟨n, first, rest, hn, hfirst, hrest⟩ := unfolds_slots ht hroom
    exact ⟨n, hn, ⟨first, .inl hfirst.1, hfirst.2⟩, ⟨rest, .inl hrest.1, hrest.2⟩⟩
  · obtain ⟨n, first, rest, hn, hfirst, hrest⟩ := unfolds_slots ht hroom
    exact ⟨n, hn, ⟨first, .inr hfirst.1, hfirst.2⟩, ⟨rest, .inr hrest.1, hrest.2⟩⟩

/-- Comparison ends where of each two values one unfolds, and tells whether all of them unfold to
the same trees. -/
theorem compareSkipping_eq_some (hskip : ∀ x y, skip x y = true → x = y)
    (hbounded : ∀ p ∈ pending, p.Bounded s) :
    ∃ answer, compareSkipping skip s pending = some answer ∧
      (answer = true ↔ ∀ p ∈ pending, s.SameUnfolding p.left p.right) := by
  fun_induction compareSkipping skip s pending with
  | case1 => exact ⟨true, rfl, by simp⟩
  | case2 x y room rest hxy ih =>
    obtain ⟨answer, heq, hanswer⟩ := ih fun p hp => hbounded p (List.mem_cons_of_mem _ hp)
    obtain rfl := hskip x y hxy
    refine ⟨answer, heq, ?_⟩
    simp [hanswer, s.sameUnfolding_refl]
  | case3 x y rest hxy =>
    obtain ⟨n, hn, -⟩ := (hbounded _ List.mem_cons_self).slots
    omega
  | case4 x y rest hxy room ih =>
    obtain ⟨n, hn, hfirst, hrest⟩ := (hbounded _ List.mem_cons_self).slots
    obtain rfl : room = n := Nat.succ.inj hn
    obtain ⟨answer, heq, hanswer⟩ := ih <| by
      simp only [List.forall_mem_cons] at hbounded ⊢
      exact ⟨hfirst, hrest, hbounded.2⟩
    refine ⟨answer, heq, ?_⟩
    simp only [hanswer, List.forall_mem_cons, Store.sameUnfolding_pair_iff, and_assoc]
  | case5 a b room rest hpair hsame ih =>
    obtain ⟨answer, heq, hanswer⟩ := ih fun p hp => hbounded p (List.mem_cons_of_mem _ hp)
    refine ⟨answer, heq, ?_⟩
    simp [hanswer, Store.sameUnfolding_iff_same (isPair_eq_false_of hpair), hsame]
  | case6 a b room rest hpair hsame =>
    refine ⟨false, rfl, ?_⟩
    simp [Store.sameUnfolding_iff_same (isPair_eq_false_of hpair), hsame]

end Equality

namespace Store

variable {s : Store} {a b c : Value}

/-- As soon as one of the values is on no circle, comparing them ends with whether they unfold to
the same tree, whatever the shortcut and wherever the bound beyond the number of pairs. -/
theorem compareSkipping_decides (ha : s.Holds a) (hb : s.Holds b)
    (hacyclic : s.Acyclic a ∨ s.Acyclic b) {skip : CellId → CellId → Bool} {room : Nat}
    (hskip : ∀ x y, skip x y = true → x = y) (hroom : s.cells.size ≤ room) :
    ∃ answer, compareSkipping skip s [⟨a, b, room⟩] = some answer ∧
      (answer = true ↔ s.SameUnfolding a b) := by
  have hbounded : (⟨a, b, room⟩ : Pending).Bounded s := by
    rcases hacyclic with hacyclic | hacyclic
    · obtain ⟨t, ht, hheight⟩ := exists_unfolds hacyclic ha
      exact ⟨t, .inl ht, Nat.le_trans hheight hroom⟩
    · obtain ⟨t, ht, hheight⟩ := exists_unfolds hacyclic hb
      exact ⟨t, .inr ht, Nat.le_trans hheight hroom⟩
  have hpending : ∀ p ∈ [(⟨a, b, room⟩ : Pending)], p.Bounded s := by simpa using hbounded
  obtain ⟨answer, heq, hanswer⟩ := compareSkipping_eq_some hskip hpending
  exact ⟨answer, heq, by simpa using hanswer⟩

private theorem equal?_eq_compareSkipping (s : Store) (a b : Value) :
    s.equal? a b = compareSkipping (fun x y => decide (x = y)) s
      [⟨a, b, s.cells.size * s.cells.size⟩] :=
  compareAll_eq_compareSkipping s _

theorem equal?_decides (ha : s.Holds a) (hb : s.Holds b) (hacyclic : s.Acyclic a ∨ s.Acyclic b) :
    ∃ answer, s.equal? a b = some answer ∧ (answer = true ↔ s.SameUnfolding a b) := by
  rw [equal?_eq_compareSkipping]
  exact compareSkipping_decides ha hb hacyclic (by simp) (Nat.le_mul_self _)

theorem equal?_eq_true_iff (ha : s.Holds a) (hb : s.Holds b)
    (hacyclic : s.Acyclic a ∨ s.Acyclic b) :
    s.equal? a b = some true ↔ s.SameUnfolding a b := by
  obtain ⟨answer, heq, hanswer⟩ := equal?_decides ha hb hacyclic
  rw [heq, Option.some.injEq, hanswer]

private theorem sameUnfolding_of_same (h : a.same b = true) : s.SameUnfolding a b := by
  cases ha : a.isPair with
  | true =>
    rw [Value.eq_of_same_of_isPair ha h]
    exact s.sameUnfolding_refl b
  | false => exact (sameUnfolding_iff_same (.inl ha)).mpr h

/-- Structural equality is equality of unfoldings. If one of two values is on no circle, comparing
them ends, and with yes exactly if they unfold to the same tree of atoms; neither the bound on the
depth nor the pairs that are skipped have a part in the answer. So on values without circles it is
an equivalence, and it holds of all that is identical. -/
theorem equality_is_of_unfoldings (s : Store) :
    (∀ a b, s.Holds a → s.Holds b → s.Acyclic a ∨ s.Acyclic b → ∃ answer,
      s.equal? a b = some answer ∧ (answer = true ↔ s.SameUnfolding a b) ∧
      ∀ skip room, (∀ x y, skip x y = true → x = y) → s.cells.size ≤ room →
        compareSkipping skip s [⟨a, b, room⟩] = some answer) ∧
    (∀ a, s.Holds a → s.Acyclic a → s.equal? a a = some true) ∧
    (∀ a b, s.Holds a → s.Holds b → s.Acyclic a ∨ s.Acyclic b → s.equal? a b = s.equal? b a) ∧
    (∀ a b c, s.Holds a → s.Holds b → s.Holds c → s.Acyclic a → s.Acyclic b → s.Acyclic c →
      s.equal? a b = some true → s.equal? b c = some true → s.equal? a c = some true) ∧
    (∀ a b, s.Holds a → s.Holds b → s.Acyclic a → s.Acyclic b → a.same b = true →
      s.equal? a b = some true) := by
  refine ⟨?_, ?_, ?_, ?_, ?_⟩
  · intro a b ha hb hacyclic
    obtain ⟨answer, heq, hanswer⟩ := equal?_decides ha hb hacyclic
    refine ⟨answer, heq, hanswer, fun skip room hskip hroom => ?_⟩
    obtain ⟨answer', heq', hanswer'⟩ := compareSkipping_decides ha hb hacyclic hskip hroom
    rw [heq', Bool.eq_iff_iff.mpr (hanswer'.trans hanswer.symm)]
  · intro a ha hacyclic
    exact (equal?_eq_true_iff ha ha (.inl hacyclic)).mpr (s.sameUnfolding_refl a)
  · intro a b ha hb hacyclic
    obtain ⟨answer, heq, hanswer⟩ := equal?_decides ha hb hacyclic
    obtain ⟨answer', heq', hanswer'⟩ := equal?_decides hb ha hacyclic.symm
    rw [heq, heq', Bool.eq_iff_iff.mpr (hanswer.trans (Iff.trans ⟨.symm, .symm⟩ hanswer'.symm))]
  · intro a b c ha hb hc hacyclic hacyclic' hacyclic'' hab hbc
    rw [equal?_eq_true_iff ha hb (.inl hacyclic)] at hab
    rw [equal?_eq_true_iff hb hc (.inl hacyclic')] at hbc
    exact (equal?_eq_true_iff ha hc (.inl hacyclic)).mpr (hab.trans hbc)
  · intro a b ha hb hacyclic hacyclic' hsame
    exact (equal?_eq_true_iff ha hb (.inl hacyclic)).mpr (sameUnfolding_of_same hsame)

/-- Two lists of two ones that share the second, and ones without end. -/
def ones : Store :=
  ⟨#[⟨.int 1, .pair ⟨1⟩⟩, ⟨.int 1, .nil⟩, ⟨.int 1, .pair ⟨1⟩⟩, ⟨.int 1, .pair ⟨3⟩⟩], #[], #[]⟩

theorem unfolds_ones_end : ones.Unfolds (.pair ⟨1⟩) (.pair ⟨1⟩ (.atom (.int 1)) (.atom .nil)) :=
  .pair ⟨1⟩ (by decide) (.atom _ rfl) (.atom _ rfl)

private theorem acyclic_ones : ones.Acyclic (.pair ⟨0⟩) ∧ ones.Acyclic (.pair ⟨2⟩) :=
  ⟨(Unfolds.pair ⟨0⟩ (by decide) (.atom _ rfl) unfolds_ones_end).acyclic,
    (Unfolds.pair ⟨2⟩ (by decide) (.atom _ rfl) unfolds_ones_end).acyclic⟩

/-- The lists are equal, without any shortcut too, and differ from the ones without end. -/
theorem ones_compared :
    (ones.Holds (.pair ⟨0⟩) ∧ ones.Holds (.pair ⟨2⟩) ∧ ones.Holds (.pair ⟨3⟩)) ∧
    (ones.Acyclic (.pair ⟨0⟩) ∧ ones.Acyclic (.pair ⟨2⟩) ∧ ones.OnCycle ⟨3⟩) ∧
    (ones.equal? (.pair ⟨0⟩) (.pair ⟨2⟩) = some true ∧
      ones.SameUnfolding (.pair ⟨0⟩) (.pair ⟨2⟩) ∧
      compareSkipping (fun _ _ => false) ones [⟨.pair ⟨0⟩, .pair ⟨2⟩, 4⟩] = some true) ∧
    ones.equal? (.pair ⟨0⟩) (.pair ⟨3⟩) = some false ∧
      ¬ ones.SameUnfolding (.pair ⟨0⟩) (.pair ⟨3⟩) := by
  have hintact : ones.Intact := by decide
  have hfirst : ones.Holds (.pair ⟨0⟩) := hintact.holds (by decide)
  have hsecond : ones.Holds (.pair ⟨2⟩) := hintact.holds (by decide)
  have hendless : ones.Holds (.pair ⟨3⟩) := hintact.holds (by decide)
  have hacyclic := acyclic_ones
  have hlists : ones.equal? (.pair ⟨0⟩) (.pair ⟨2⟩) = some true := by decide +kernel
  have hdiffer : ones.equal? (.pair ⟨0⟩) (.pair ⟨3⟩) = some false := by decide +kernel
  obtain ⟨hdecides, -⟩ := equality_is_of_unfoldings ones
  obtain ⟨answer, heq, hanswer, hanyhow⟩ := hdecides _ _ hfirst hsecond (.inl hacyclic.1)
  obtain ⟨answer', heq', hanswer', -⟩ := hdecides _ _ hfirst hendless (.inl hacyclic.1)
  obtain rfl : answer = true := Option.some.inj (heq.symm.trans hlists)
  obtain rfl : answer' = false := Option.some.inj (heq'.symm.trans hdiffer)
  refine ⟨⟨hfirst, hsecond, hendless⟩, ⟨hacyclic.1, hacyclic.2, .inr (.here _)⟩,
    ⟨hlists, hanswer.mp rfl, hanyhow _ 4 (by simp) (by decide)⟩, hdiffer, ?_⟩
  intro hsame
  exact absurd (hanswer'.mpr hsame) (by decide)

end Store
end MiniScheme
