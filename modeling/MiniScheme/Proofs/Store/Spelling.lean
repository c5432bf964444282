import MiniScheme.Proofs.Native.Syntax
import MiniScheme.Proofs.Store.Environments
import MiniScheme.Proofs.Store.Loading
/-! # What a value spells

A datum that was read is a value made of new pairs. The value can be taken apart as the datum is
written: an application into its operator and the list of its operands, parameters into their names.
-/
namespace MiniScheme

def Datum.list : List Datum → Datum
  | [] => .nil
  | d :: ds => .pair d (list ds)

namespace Store

variable {s s' : Store} {v : Value}

/-- The value is made of pairs of the store and is written as the datum. -/
def Spells (s : Store) (v : Value) (d : Datum) : Prop :=
  ∃ t, s.Unfolds v t ∧ t.datum = d ∧ t.Faithful

theorem spells_load (s : Store) (d : Datum) : (s.load d).2.Spells (s.load d).1 d :=
  (builds_load s d).2

theorem elsewhere_load (s : Store) (d : Datum) :
    (s.load d).2.frames = s.frames ∧ (s.load d).2.closures = s.closures := by
  have hassemble (ts : List Datum.Task) (vs : List Value) (s : Store) :
      (Datum.assemble s ts vs).2.frames = s.frames ∧
        (Datum.assemble s ts vs).2.closures = s.closures := by
    fun_induction Datum.assemble s ts vs with
    | case1 => exact ⟨rfl, rfl⟩
    | case2 => exact ⟨rfl, rfl⟩
    | case3 _ _ _ _ _ ih => exact ih
    | case4 _ _ _ _ _ ih => exact ih
    | case5 _ _ _ _ _ _ _ hcons ih =>
      obtain ⟨rfl, rfl⟩ := Prod.mk.inj hcons
      exact ih
    | case6 _ _ _ _ ih => exact ih
  exact hassemble [.build d] [] s

theorem Spells.extend {d : Datum} (h : s.Spells v d) (hs : s.Extends s') : s'.Spells v d := by
  obtain ⟨t, ht, hdatum, hfaithful⟩ := h
  exact ⟨t, ht.extend hs, hdatum, hfaithful⟩

private theorem Spells.atom {d : Datum} (h : s.Spells v d)
    (hd : ∀ first rest, d ≠ .pair first rest) :
    v = d.atomValue := by
  obtain ⟨t, ht, rfl, hfaithful⟩ := h
  cases ht with
  | atom _ _ => exact (hfaithful v (List.mem_singleton_self v)).symm
  | pair c _ _ _ => exact absurd rfl (hd _ _)

theorem Spells.symbol {x : Symbol} (h : s.Spells v (.symbol x)) : v = .symbol x :=
  h.atom fun _ _ => by simp

theorem Spells.int {n : Int64} (h : s.Spells v (.int n)) : v = .int n :=
  h.atom fun _ _ => by simp

theorem Spells.pair {first rest : Datum} (h : s.Spells v (.pair first rest)) :
    ∃ c, v = .pair c ∧ s.Spells (s.first c) first ∧ s.Spells (s.rest c) rest := by
  obtain ⟨t, ht, hdatum, hfaithful⟩ := h
  cases ht with
  | atom _ _ =>
    have hatom := hfaithful v (List.mem_singleton_self v)
    cases v <;> simp [Tree.datum, Datum.ofAtom] at hdatum
  | pair c _ hfirst hrest =>
    obtain ⟨hf, hr⟩ := Datum.pair.inj hdatum
    exact ⟨c, rfl, ⟨_, hfirst, hf, hfaithful.first⟩, ⟨_, hrest, hr, hfaithful.rest⟩⟩

theorem Spells.items {ds : List Datum} (h : s.Spells v (.list ds)) :
    ∃ items, s.Lists v items ∧ s.spine v = .proper items ∧ List.Forall₂ s.Spells items ds := by
  have hlists : ∃ items, s.Lists v items ∧ List.Forall₂ s.Spells items ds := by
    induction ds generalizing v with
    | nil => exact ⟨[], lists_nil_iff.mpr (h.atom fun _ _ => by simp [Datum.list]), .nil⟩
    | cons d ds ih =>
      obtain ⟨c, rfl, hfirst, hrest⟩ := h.pair
      obtain ⟨items, hitems, hspells⟩ := ih hrest
      exact ⟨s.first c :: items, lists_cons_iff.mpr ⟨c, rfl, rfl, hitems⟩, .cons hfirst hspells⟩
  obtain ⟨items, hitems, hspells⟩ := hlists
  obtain ⟨t, ht, -⟩ := h
  rcases spine_cases ht.acyclic ht.holds with ⟨items', hitems', hspine⟩ | ⟨hnone, -⟩
  · obtain rfl := hitems.unique hitems'
    exact ⟨items', hitems, hspine, hspells⟩
  · exact absurd hitems (hnone items)

theorem Spells.application {d : Datum} {ds : List Datum} (h : s.Spells v (.list (d :: ds))) :
    ∃ c, v = .pair c ∧ s.Spells (s.first c) d ∧ ∃ items, s.Lists (s.rest c) items ∧
      s.spine (s.rest c) = .proper items ∧ List.Forall₂ s.Spells items ds := by
  obtain ⟨c, hc, hfirst, hrest⟩ := h.pair
  exact ⟨c, hc, hfirst, hrest.items⟩

private theorem Spells.symbols {names : List Symbol} (h : s.Spells v (.list (names.map .symbol))) :
    s.Lists v (names.map .symbol) := by
  induction names generalizing v with
  | nil => exact lists_nil_iff.mpr (h.atom fun _ _ => by simp [Datum.list])
  | cons x names ih =>
    obtain ⟨c, rfl, hfirst, hrest⟩ := h.pair
    exact lists_cons_iff.mpr ⟨c, rfl, hfirst.symbol, ih hrest⟩

private theorem Spells.parameters {names : List Symbol}
    (h : s.Spells v (.list (names.map .symbol))) :
    s.Parameters v names := by
  induction names generalizing v with
  | nil =>
    obtain rfl : v = .nil := h.atom fun _ _ => by simp [Datum.list]
    exact .nil
  | cons x names ih =>
    obtain ⟨c, rfl, hfirst, hrest⟩ := h.pair
    exact .cons hfirst.symbol (ih hrest)

end Store

namespace Forms

variable {s : Store} {v : Value} {names : List Symbol}

/-- A list of different names stands for just these parameters. -/
theorem parseFormals_of_spells (form : String) (h : s.Spells v (.list (names.map .symbol)))
    (hdistinct : Symbol.Distinct names) : parseFormals s form v = .ok (.fixed names) := by
  have hholds : s.Holds v := by
    obtain ⟨t, ht, -⟩ := h
    exact ht.holds
  have hlength := h.parameters.length_le hholds
  exact formalsWithin_of_lists form h.symbols (by rwa [List.append_nil]) (by omega)

end Forms
end MiniScheme
