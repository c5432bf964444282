import MiniScheme.Proofs.SymbolTable.Growth
/-! # Tables without hashing

A ledger is what remains of a table without its slots and its hash function: the names in the order
they were added, the capacity and the limit on it. A table answers as its ledger does and both stay
in step, so answers, size and capacity are the same under every hash function. The capacity is the
first one of its series with room for the names, whether growth was refused in between or not.
-/
namespace MiniScheme.SymbolTable

/-- The names of a table in the order they were added, and how far it has grown. -/
structure Ledger where
  names : List String
  capacity : Nat
  maxCapacity : Option Nat

/-- The capacities that a table made with `start` slots can have, in the order it takes them. -/
def capacities (start : Nat) : Nat → Nat
  | 0 => max start 1
  | k + 1 => 2 * (capacities start k + 1) - 1

private theorem capacities_pos (start k : Nat) : 0 < capacities start k := by
  cases k with
  | zero => rw [capacities]; omega
  | succ k => rw [capacities]; omega

variable {t : SymbolTable} {names : List String} {l : Ledger} {name : String} {x : Symbol}

namespace Ledger

def blank (capacity : Nat) (maxCapacity : Option Nat) : Ledger :=
  ⟨[], max capacity 1, maxCapacity⟩

def lookup (l : Ledger) (name : String) : Option Symbol :=
  (symbolsOf l.names).find? fun x => x.name = name

def larger? (l : Ledger) : Option Nat :=
  (nextCapacity l.capacity).filter fun larger => l.maxCapacity.all fun limit => larger ≤ limit

/-- The symbol of `name`, entered on first use. -/
def intern (l : Ledger) (name : String) : Except SymbolTableError Symbol × Ledger :=
  match l.lookup name with
  | some x => (.ok x, l)
  | none =>
    let symbol : Symbol := ⟨l.names.length, name⟩
    let entered := { l with names := l.names ++ [name] }
    if 4 * (l.names.length + 1) ≤ 3 * l.capacity then (.ok symbol, entered)
    else match l.larger? with
      | some larger => (.ok symbol, { entered with capacity := larger })
      | none => (.error (.capacityExceeded l.capacity), l)

def answerAll : List Request → Ledger → List Event × Ledger
  | [], l => ([], l)
  | .intern name :: requests, l =>
    let (log, after) := answerAll requests (l.intern name).2
    (.interned name (l.intern name).1 :: log, after)
  | .lookup name :: requests, l =>
    let (log, after) := answerAll requests l
    (.found name (l.lookup name) :: log, after)

private theorem lookup_eq_some_iff (hnames : l.names.Nodup) :
    l.lookup name = some x ↔ x ∈ symbolsOf l.names ∧ x.name = name := by
  constructor
  · intro h
    exact ⟨List.mem_of_find?_eq_some h, by simpa using List.find?_some h⟩
  · rintro ⟨hx, hname⟩
    cases hfind : l.lookup name with
    | none => exact absurd hname (by simpa using List.find?_eq_none.mp hfind x hx)
    | some y =>
      have hy := List.mem_of_find?_eq_some hfind
      have hyname : y.name = name := by simpa using List.find?_some hfind
      have hdistinct : ((symbolsOf l.names).map Symbol.name).Nodup := by
        rwa [map_name_symbolsOf]
      rw [List.inj_on_of_nodup_map hdistinct hy hx (hyname.trans hname.symm)]

/-- The capacity is the first one with room for the names. -/
def OnSeries (start : Nat) (l : Ledger) : Prop :=
  ∃ k, l.capacity = capacities start k ∧ 4 * l.names.length ≤ 3 * l.capacity ∧
    ∀ j < k, 3 * capacities start j < 4 * l.names.length

private theorem onSeries_blank (capacity : Nat) (maxCapacity : Option Nat) :
    (blank capacity maxCapacity).OnSeries capacity :=
  ⟨0, rfl, Nat.zero_le _, by simp⟩

theorem OnSeries.intern {start : Nat} (h : l.OnSeries start) (name : String) :
    (l.intern name).2.OnSeries start := by
  obtain ⟨k, hcapacity, hroom, hbefore⟩ := h
  have hsame : l.OnSeries start := ⟨k, hcapacity, hroom, hbefore⟩
  have hpos := capacities_pos start k
  have hlength : (l.names ++ [name]).length = l.names.length + 1 := List.length_append
  unfold Ledger.intern
  split
  · exact hsame
  · dsimp only
    split
    · next hfits =>
      refine ⟨k, hcapacity, by rwa [hlength], fun j hj => ?_⟩
      have := hbefore j hj
      rw [hlength]
      omega
    · next hcrowded =>
      split
      · next larger hlarger =>
        obtain ⟨-, hnext⟩ := nextCapacity_eq_some_iff.mp (Option.filter_eq_some_iff.mp hlarger).1
        refine ⟨k + 1, by rw [capacities, ← hcapacity, hnext], ?_, fun j hj => ?_⟩
        · change 4 * (l.names ++ [name]).length ≤ 3 * larger
          omega
        · rw [hlength]
          rcases Nat.lt_or_eq_of_le (Nat.le_of_lt_succ hj) with hlt | rfl
          · have := hbefore j hlt
            omega
          · omega
      · exact hsame

private theorem OnSeries.answerAll {start : Nat} (requests : List Request) (h : l.OnSeries start) :
    (answerAll requests l).2.OnSeries start := by
  induction requests generalizing l with
  | nil => exact h
  | cons request requests ih =>
    cases request with
    | intern name => exact ih (h.intern name)
    | lookup name => exact ih h

end Ledger

/-- The table holds what the ledger lists. -/
structure Follows (t : SymbolTable) (l : Ledger) : Prop where
  represents : t.Represents l.names
  capacity : t.slots.size = l.capacity
  maxCapacity : t.maxCapacity = l.maxCapacity

namespace Follows

private theorem lookup_eq (h : t.Follows l) (name : String) : t.lookup name = l.lookup name := by
  apply Option.ext
  intro x
  rw [h.represents.lookup_eq_some_iff, Ledger.lookup_eq_some_iff h.represents.distinct]

private theorem larger?_eq_some_iff (h : t.Follows l) {larger : Nat} :
    l.larger? = some larger ↔ t.CanGrow ∧ larger = 2 * (t.slots.size + 1) - 1 := by
  rw [Ledger.larger?, Option.filter_eq_some_iff, CanGrow, h.capacity, h.maxCapacity]
  constructor
  · rintro ⟨hnext, hlimit⟩
    refine ⟨⟨larger, hnext, fun limit hmax => ?_⟩, (nextCapacity_eq_some_iff.mp hnext).2⟩
    simpa [hmax] using hlimit
  · rintro ⟨⟨larger', hnext, hlimit⟩, rfl⟩
    obtain ⟨-, rfl⟩ := nextCapacity_eq_some_iff.mp hnext
    refine ⟨hnext, ?_⟩
    cases hmax : l.maxCapacity with
    | none => rfl
    | some limit => simpa using hlimit limit hmax

theorem intern (h : t.Follows l) (name : String) :
    (t.intern name).1 = (l.intern name).1 ∧ (t.intern name).2.Follows (l.intern name).2 := by
  unfold Ledger.intern
  rcases h.represents.intern_outcome name with
    ⟨x, hx, hname, heq⟩ | ⟨hfresh, hrest⟩
  · rw [(Ledger.lookup_eq_some_iff h.represents.distinct).mpr ⟨hx, hname⟩, heq]
    exact ⟨rfl, h⟩
  · have hlookup : l.lookup name = none := by
      rw [Option.eq_none_iff_forall_ne_some]
      intro x hx
      obtain ⟨hmem, rfl⟩ := (Ledger.lookup_eq_some_iff h.represents.distinct).mp hx
      exact hfresh (List.mem_of_getElem? (mem_symbolsOf.mp hmem))
    rw [hlookup]
    dsimp only
    rcases hrest with
      ⟨t', heq, ht', hmax, ⟨hsize, hfits⟩ | ⟨hsize, hcrowded, hgrow⟩⟩ | ⟨heq, hcrowded, hcannot⟩
    · rw [h.capacity] at hfits
      rw [if_pos hfits, heq]
      exact ⟨rfl, ht', hsize.trans h.capacity, hmax.trans h.maxCapacity⟩
    · rw [h.capacity] at hcrowded
      rw [if_neg (Nat.not_le_of_lt hcrowded), h.larger?_eq_some_iff.mpr ⟨hgrow, rfl⟩, heq]
      exact ⟨rfl, ht', hsize, hmax.trans h.maxCapacity⟩
    · have hlarger : l.larger? = none := by
        rw [Option.eq_none_iff_forall_ne_some]
        intro larger hsome
        exact hcannot (h.larger?_eq_some_iff.mp hsome).1
      rw [h.capacity] at hcrowded
      rw [if_neg (Nat.not_le_of_lt hcrowded), hlarger, heq, h.capacity]
      exact ⟨rfl, h⟩

/-- A table goes through all requests as its ledger does. -/
theorem answerAll (requests : List Request) (h : t.Follows l) :
    (answerAll requests t).1 = (l.answerAll requests).1 ∧
      (SymbolTable.answerAll requests t).2.Follows (l.answerAll requests).2 := by
  induction requests generalizing t l with
  | nil => exact ⟨rfl, h⟩
  | cons request requests ih =>
    cases request with
    | intern name =>
      obtain ⟨hanswer, hafter⟩ := h.intern name
      obtain ⟨hlog, hend⟩ := ih hafter
      exact ⟨by simp only [SymbolTable.answerAll, Ledger.answerAll, hanswer, hlog], hend⟩
    | lookup name =>
      obtain ⟨hlog, hend⟩ := ih h
      exact ⟨by simp only [SymbolTable.answerAll, Ledger.answerAll, h.lookup_eq, hlog], hend⟩

end Follows

private theorem follows_withCapacity (capacity : Nat) (maxCapacity : Option Nat) (hash : NameHash) :
    (withCapacity capacity maxCapacity hash).Follows (.blank capacity maxCapacity) where
  represents := represents_withCapacity capacity maxCapacity hash
  capacity := Array.size_replicate
  maxCapacity := rfl

/-- No request tells one hash function from another. Under both, every request has the same answer,
the same symbol or the same error, and after every request the tables have the same size and the same
capacity: the first one, of those that follow the initial one, with room for the names. -/
theorem hash_function_is_unobservable (hash hash' : NameHash) (capacity : Nat)
    (maxCapacity : Option Nat) (requests : List Request) :
    let start := withCapacity capacity maxCapacity hash
    let start' := withCapacity capacity maxCapacity hash'
    (answerAll requests start).1 = (answerAll requests start').1 ∧
    ∀ n,
      let t := (answerAll (requests.take n) start).2
      let t' := (answerAll (requests.take n) start').2
      t.size = t'.size ∧ t.capacity = t'.capacity ∧
      ∃ k, t.capacity = capacities capacity k ∧ 4 * t.size ≤ 3 * capacities capacity k ∧
        ∀ j < k, ¬ 4 * t.size ≤ 3 * capacities capacity j := by
  intro start start'
  have hstart := follows_withCapacity capacity maxCapacity hash
  have hstart' := follows_withCapacity capacity maxCapacity hash'
  refine ⟨(hstart.answerAll requests).1.trans (hstart'.answerAll requests).1.symm, ?_⟩
  intro n t t'
  have ht : t.Follows _ := (hstart.answerAll (requests.take n)).2
  have ht' : t'.Follows _ := (hstart'.answerAll (requests.take n)).2
  have hsize : t.size = _ := ht.represents.occupied
  have hcapacity : t.capacity = _ := ht.capacity
  obtain ⟨k, hk, hroom, hbefore⟩ :=
    (Ledger.onSeries_blank capacity maxCapacity).answerAll (requests.take n)
  rw [hk] at hroom
  refine ⟨hsize.trans ht'.represents.occupied.symm, hcapacity.trans ht'.capacity.symm,
    k, hcapacity.trans hk, by rwa [hsize], fun j hj => ?_⟩
  rw [hsize]
  exact Nat.not_le_of_lt (hbefore j hj)

/-- From one slot on, once with all names in one run of slots and once with names spread by their
length: the slots differ, and the third name makes both tables move to seven slots. -/
theorem capacity_of_three_names :
    let requests : List Request := [.intern "a", .intern "bb", .lookup "a", .intern "ccc"]
    let t := (answerAll requests (withCapacity 1 none (fun _ => 5))).2
    let t' := (answerAll requests (withCapacity 1 none (fun name => name.length.toUInt64))).2
    t.slots ≠ t'.slots ∧ t.capacity = 7 ∧ t'.capacity = 7 ∧ t'.size = 3 ∧
      ∃ k, t.capacity = capacities 1 k ∧ ∀ j < k, ¬ 4 * 3 ≤ 3 * capacities 1 j := by
  intro requests t t'
  have hslots : t.slots ≠ t'.slots := by decide +kernel
  have hcapacity : t.capacity = 7 := by decide +kernel
  have hsize : t.size = 3 := by decide +kernel
  obtain ⟨hsize', hcapacity', k, hk, -, hbefore⟩ :=
    (hash_function_is_unobservable (fun _ => 5) (fun name => name.length.toUInt64) 1 none
      requests).2 4
  refine ⟨hslots, hcapacity, hcapacity'.symm.trans hcapacity, hsize'.symm.trans hsize, k, hk, ?_⟩
  intro j hj
  rw [← hsize]
  exact hbefore j hj

end MiniScheme.SymbolTable
