import Mathlib.Data.List.Permutation
import MiniScheme.Proofs.SymbolTable.Probing
/-! # Interning as a map

A table stands for the list of names that were added to it, in the order they were added; the
identity of a symbol is the place of its name in that list. Whatever the hash function, the capacity
and the limit on it, look-up is look-up in that list, and interning answers from it, extends it, or
fails and leaves the table alone.
-/
namespace MiniScheme.SymbolTable

/-- The symbols of names added in this order. -/
def symbolsOf (names : List String) : List Symbol := names.mapIdx (fun i name => ⟨i, name⟩)

/-- The table holds the symbols of `names`. Every symbol is reached from its start slot, and at most
three quarters of the slots are in use. -/
structure Represents (t : SymbolTable) (names : List String) : Prop where
  nonempty : 0 < t.slots.size
  distinct : names.Nodup
  holds : (stored t.slots).Perm (symbolsOf names)
  occupied : t.occupied = names.length
  reached : Reached t.hash t.slots
  roomy : 4 * t.occupied ≤ 3 * t.slots.size

/-- The table may move to the next capacity. -/
def CanGrow (t : SymbolTable) : Prop :=
  ∃ larger, nextCapacity t.slots.size = some larger ∧
    ∀ limit, t.maxCapacity = some limit → larger ≤ limit

variable {t : SymbolTable} {names : List String}

theorem nextCapacity_eq_some_iff {n larger : Nat} :
    nextCapacity n = some larger ↔
      2 * (n + 1) < 0x10000000000000000 ∧ larger = 2 * (n + 1) - 1 := by
  unfold nextCapacity
  by_cases h : 2 * (n + 1) < 0x10000000000000000
  · rw [if_pos h, Option.some.injEq]
    exact ⟨fun heq => ⟨h, heq.symm⟩, fun heq => heq.2.symm⟩
  · rw [if_neg h]
    exact ⟨fun heq => by simp at heq, fun heq => absurd heq.1 h⟩

theorem not_canGrow_iff :
    ¬ t.CanGrow ↔ 0x10000000000000000 ≤ 2 * (t.slots.size + 1) ∨
      ∃ limit, t.maxCapacity = some limit ∧ limit < 2 * (t.slots.size + 1) - 1 := by
  constructor
  · intro hcannot
    by_cases hword : 2 * (t.slots.size + 1) < 0x10000000000000000
    · right
      apply Classical.byContradiction
      intro hlimit
      refine hcannot ⟨_, nextCapacity_eq_some_iff.mpr ⟨hword, rfl⟩, fun limit hmax => ?_⟩
      exact Nat.le_of_not_lt fun hlt => hlimit ⟨limit, hmax, hlt⟩
    · exact .inl (Nat.le_of_not_lt hword)
  · rintro hrefused ⟨larger, hnext, hlarger⟩
    obtain ⟨hword, rfl⟩ := nextCapacity_eq_some_iff.mp hnext
    rcases hrefused with hover | ⟨limit, hmax, hlt⟩
    · omega
    · exact absurd hlt (Nat.not_lt_of_le (hlarger limit hmax))

theorem map_name_symbolsOf (names : List String) : (symbolsOf names).map Symbol.name = names := by
  apply List.ext_getElem
  · simp [symbolsOf]
  · intro i hi hi'
    simp [symbolsOf]

private theorem length_symbolsOf (names : List String) :
    (symbolsOf names).length = names.length := by
  simp [symbolsOf]

theorem symbolsOf_concat (names : List String) (name : String) :
    symbolsOf (names ++ [name]) = symbolsOf names ++ [⟨names.length, name⟩] :=
  List.mapIdx_concat

theorem mem_symbolsOf {x : Symbol} : x ∈ symbolsOf names ↔ names[x.id]? = some x.name := by
  rw [symbolsOf, List.mem_mapIdx]
  constructor
  · rintro ⟨i, hi, rfl⟩
    exact List.getElem?_eq_getElem hi
  · intro h
    obtain ⟨hi, hname⟩ := List.getElem?_eq_some_iff.mp h
    exact ⟨x.id, hi, by rw [hname]⟩

/-- Within one table identity and name determine each other. -/
theorem same_iff_name_eq (hnames : names.Nodup) {x y : Symbol} (hx : x ∈ symbolsOf names)
    (hy : y ∈ symbolsOf names) : x.same y = true ↔ x.name = y.name := by
  rw [Symbol.same_iff]
  rw [mem_symbolsOf] at hx hy
  constructor
  · intro hid
    rw [hid, hy] at hx
    exact (Option.some.inj hx).symm
  · intro hname
    obtain ⟨hix, hxname⟩ := List.getElem?_eq_some_iff.mp hx
    obtain ⟨hiy, hyname⟩ := List.getElem?_eq_some_iff.mp hy
    exact hnames.getElem_inj_iff.mp (by rw [hxname, hyname, hname])

namespace Represents

theorem nodup_names (h : t.Represents names) : ((stored t.slots).map Symbol.name).Nodup := by
  rw [(h.holds.map Symbol.name).nodup_iff, map_name_symbolsOf]
  exact h.distinct

theorem length_stored (h : t.Represents names) : (stored t.slots).length = names.length := by
  rw [h.holds.length_eq, length_symbolsOf]

theorem length_stored_lt (h : t.Represents names) : (stored t.slots).length < t.slots.size := by
  have hroomy := h.roomy
  have hnonempty := h.nonempty
  rw [h.length_stored, ← h.occupied]
  omega

theorem search_eq_hit_iff (h : t.Represents names) {name : String} {x : Symbol} :
    search t.hash t.slots name = .hit x ↔ x ∈ symbolsOf names ∧ x.name = name := by
  rw [SymbolTable.search_eq_hit_iff h.nonempty h.reached h.nodup_names, h.holds.mem_iff]

theorem lookup_eq_some_iff (h : t.Represents names) {name : String} {x : Symbol} :
    t.lookup name = some x ↔ x ∈ symbolsOf names ∧ x.name = name := by
  rw [← h.search_eq_hit_iff, lookup]
  cases search t.hash t.slots name <;> simp

end Represents

theorem represents_withCapacity (capacity : Nat) (maxCapacity : Option Nat) (hash : NameHash) :
    (withCapacity capacity maxCapacity hash).Represents [] where
  nonempty := by simp only [withCapacity, Array.size_replicate]; omega
  distinct := List.nodup_nil
  holds := by rw [withCapacity, stored_replicate]; exact List.Perm.refl _
  occupied := rfl
  reached := reached_replicate hash _
  roomy := by simp only [withCapacity]; omega

/-- Growth moves all symbols to the next capacity, unless that is refused. -/
theorem grownSlots_cases (t : SymbolTable) {slots : Array (Option Symbol)}
    (hsize : slots.size = t.slots.size) (hroom : (stored slots).length ≤ slots.size)
    (hnames : ((stored slots).map Symbol.name).Nodup) :
    (∃ placed, t.grownSlots slots = .ok placed ∧ placed.size = 2 * (slots.size + 1) - 1 ∧
      Reached t.hash placed ∧ (stored placed).Perm (stored slots) ∧ t.CanGrow) ∨
      t.grownSlots slots = .error (.capacityExceeded slots.size) ∧ ¬ t.CanGrow := by
  unfold grownSlots CanGrow
  rw [← hsize]
  cases hnext : nextCapacity slots.size with
  | none => exact .inr ⟨rfl, by simp⟩
  | some larger =>
    dsimp only
    have hlarger : larger = 2 * (slots.size + 1) - 1 := (nextCapacity_eq_some_iff.mp hnext).2
    by_cases hlimit : t.maxCapacity.any (fun limit => limit < larger) = true
    · rw [if_pos hlimit]
      refine .inr ⟨rfl, ?_⟩
      rintro ⟨_, hsome, hle⟩
      obtain rfl := Option.some.inj hsome
      cases hmax : t.maxCapacity with
      | none => rw [hmax] at hlimit; simp at hlimit
      | some limit =>
        have hlt : limit < larger := by simpa [hmax] using hlimit
        have := hle limit hmax
        omega
    · rw [if_neg hlimit]
      left
      have hempty : stored (Array.replicate larger none) = [] := stored_replicate larger
      obtain ⟨placed, hplaced, hplacedSize, hreached, hperm⟩ :=
        placeAll_eq_ok (stored slots) (by rw [Array.size_replicate]; omega)
          (by rw [hempty, Array.size_replicate, List.length_nil]; omega)
          (reached_replicate t.hash larger) (by rw [hempty, List.append_nil]; exact hnames)
      rw [Array.size_replicate] at hplacedSize
      rw [hempty, List.append_nil] at hperm
      refine ⟨placed, hplaced, hplacedSize.trans hlarger, hreached, hperm, larger, rfl, ?_⟩
      intro limit hmax
      simpa [hmax] using hlimit

theorem Represents.extend (h : t.Represents names) {name : String} (hfresh : name ∉ names)
    {slots : Array (Option Symbol)} (hreached : Reached t.hash slots)
    (hperm : (stored slots).Perm (⟨names.length, name⟩ :: stored t.slots))
    (hsize : t.slots.size ≤ slots.size) (hroomy : 4 * (t.occupied + 1) ≤ 3 * slots.size) :
    Represents { t with slots := slots, occupied := t.occupied + 1 } (names ++ [name]) where
  nonempty := Nat.lt_of_lt_of_le h.nonempty hsize
  distinct := by
    rw [List.nodup_append_comm, List.singleton_append, List.nodup_cons]
    exact ⟨hfresh, h.distinct⟩
  holds := by
    rw [symbolsOf_concat]
    exact hperm.trans ((h.holds.cons _).trans (List.perm_append_singleton _ _).symm)
  occupied := by rw [List.length_append, List.length_singleton, h.occupied]
  reached := hreached
  roomy := hroomy

theorem Represents.not_mem_of_free (h : t.Represents names) {name : String} {i : Nat}
    (hsearch : search t.hash t.slots name = .free i) : name ∉ names := by
  intro hmem
  obtain ⟨k, hk, hget⟩ := List.getElem_of_mem hmem
  have hstored : (⟨k, name⟩ : Symbol) ∈ symbolsOf names :=
    mem_symbolsOf.mpr (List.getElem?_eq_some_iff.mpr ⟨hk, hget⟩)
  rw [h.search_eq_hit_iff.mpr ⟨hstored, rfl⟩] at hsearch
  simp at hsearch

private theorem Represents.stored_insert (h : t.Represents names) {name : String} {i : Nat}
    (hsearch : search t.hash t.slots name = .free i) :
    (stored (t.slots.setIfInBounds i (some ⟨t.occupied, name⟩))).Perm
      (⟨names.length, name⟩ :: stored t.slots) := by
  obtain ⟨hi, hnone, -⟩ := search_eq_free h.nonempty hsearch
  rw [← h.occupied]
  exact stored_set_perm _ hi hnone

theorem Represents.grownSlots_outcome (h : t.Represents names) {name : String} {i : Nat}
    (hsearch : search t.hash t.slots name = .free i) :
    let slots := t.slots.setIfInBounds i (some ⟨t.occupied, name⟩)
    (∃ placed, t.grownSlots slots = .ok placed ∧ placed.size = 2 * (t.slots.size + 1) - 1 ∧
      Reached t.hash placed ∧
      (stored placed).Perm (⟨names.length, name⟩ :: stored t.slots) ∧ t.CanGrow) ∨
      t.grownSlots slots = .error (.capacityExceeded t.slots.size) ∧ ¬ t.CanGrow := by
  intro slots
  have hsize : slots.size = t.slots.size := Array.size_setIfInBounds
  have hperm : (stored slots).Perm _ := h.stored_insert hsearch
  have hroom : (stored slots).length ≤ slots.size := by
    rw [hperm.length_eq, List.length_cons, hsize]
    exact h.length_stored_lt
  have hnames : ((stored slots).map Symbol.name).Nodup := by
    rw [(hperm.map Symbol.name).nodup_iff, List.map_cons, List.nodup_cons,
      (h.holds.map Symbol.name).mem_iff, map_name_symbolsOf]
    exact ⟨h.not_mem_of_free hsearch, h.nodup_names⟩
  rcases grownSlots_cases t hsize hroom hnames with
    ⟨placed, hgrown, hplaced, hreached, hperm', hgrow⟩ | ⟨hgrown, hcannot⟩
  · rw [hsize] at hplaced
    exact .inl ⟨placed, hgrown, hplaced, hreached, hperm'.trans hperm, hgrow⟩
  · rw [hsize] at hgrown
    exact .inr ⟨hgrown, hcannot⟩

/-- What interning a name does to the table and answers. A new name goes into the slots that are
there, or makes the table move because they are crowded, or is refused because it cannot move. -/
theorem Represents.intern_outcome (h : t.Represents names) (name : String) :
    (∃ x ∈ symbolsOf names, x.name = name ∧ t.intern name = (.ok x, t)) ∨
    name ∉ names ∧
      ((∃ t', t.intern name = (.ok ⟨names.length, name⟩, t') ∧ t'.Represents (names ++ [name]) ∧
          t'.maxCapacity = t.maxCapacity ∧
          (t'.slots.size = t.slots.size ∧ 4 * (names.length + 1) ≤ 3 * t.slots.size ∨
            t'.slots.size = 2 * (t.slots.size + 1) - 1 ∧
              3 * t.slots.size < 4 * (names.length + 1) ∧ t.CanGrow)) ∨
        (t.intern name = (.error (.capacityExceeded t.slots.size), t) ∧
          3 * t.slots.size < 4 * (names.length + 1) ∧ ¬ t.CanGrow)) := by
  unfold intern
  cases hsearch : search t.hash t.slots name with
  | hit x =>
    obtain ⟨hmem, hname⟩ := h.search_eq_hit_iff.mp hsearch
    exact .inl ⟨x, hmem, hname, rfl⟩
  | exhausted => exact absurd hsearch (search_ne_exhausted h.length_stored_lt t.hash name)
  | free i =>
    right
    have hfresh := h.not_mem_of_free hsearch
    have hcrowded_iff : isCrowded (t.occupied + 1) t.slots.size = true ↔
        3 * t.slots.size < 4 * (names.length + 1) := by
      rw [h.occupied, isCrowded, decide_eq_true_eq]
    refine ⟨hfresh, ?_⟩
    dsimp only
    by_cases hcrowded : isCrowded (t.occupied + 1) t.slots.size = true
    · rw [if_pos hcrowded]
      rw [hcrowded_iff] at hcrowded
      rcases h.grownSlots_outcome hsearch with
        ⟨placed, hgrown, hplaced, hreached, hperm, hgrow⟩ | ⟨hgrown, hcannot⟩
      · rw [hgrown]
        refine .inl ⟨{ t with slots := placed, occupied := t.occupied + 1 }, ?_, ?_, rfl,
          .inr ⟨hplaced, hcrowded, hgrow⟩⟩
        · rw [← h.occupied]
        · have hroomy := h.roomy
          have hnonempty := h.nonempty
          apply h.extend hfresh hreached hperm <;> rw [hplaced] <;> omega
      · rw [hgrown]
        exact .inr ⟨rfl, hcrowded, hcannot⟩
    · rw [if_neg hcrowded]
      have hspare : 4 * (names.length + 1) ≤ 3 * t.slots.size :=
        Nat.le_of_not_lt fun hlt => hcrowded (hcrowded_iff.mpr hlt)
      have hsize : (t.slots.setIfInBounds i (some ⟨t.occupied, name⟩)).size = t.slots.size :=
        Array.size_setIfInBounds
      refine .inl ⟨{ t with slots := t.slots.setIfInBounds i (some ⟨t.occupied, name⟩),
                            occupied := t.occupied + 1 }, ?_, ?_, rfl, .inl ⟨hsize, hspare⟩⟩
      · rw [← h.occupied]
      · apply h.extend hfresh (reached_insert h.nonempty h.reached hsearch)
          (h.stored_insert hsearch) (Nat.le_of_eq hsize.symm)
        rwa [hsize, h.occupied]

theorem Represents.intern_cases (h : t.Represents names) (name : String) :
    (∃ x ∈ symbolsOf names, x.name = name ∧ t.intern name = (.ok x, t)) ∨
    (name ∉ names ∧ ∃ t', t.intern name = (.ok ⟨names.length, name⟩, t') ∧
      t'.Represents (names ++ [name]) ∧ t'.maxCapacity = t.maxCapacity) ∨
    (name ∉ names ∧ ¬ t.CanGrow ∧
      t.intern name = (.error (.capacityExceeded t.slots.size), t)) := by
  rcases h.intern_outcome name with
    hhit | ⟨hfresh, ⟨t', heq, ht', hmax, -⟩ | ⟨heq, -, hcannot⟩⟩
  · exact .inl hhit
  · exact .inr (.inl ⟨hfresh, t', heq, ht', hmax⟩)
  · exact .inr (.inr ⟨hfresh, hcannot, heq⟩)

theorem Represents.intern_of_canGrow (h : t.Represents names) (hgrow : t.CanGrow) (name : String) :
    ∃ x t', t.intern name = (.ok x, t') ∧ t'.lookup name = some x := by
  rcases h.intern_cases name with ⟨x, hx, hname, heq⟩ | ⟨-, t', heq, ht', -⟩ | ⟨-, hcannot, -⟩
  · exact ⟨x, t, heq, h.lookup_eq_some_iff.mpr ⟨hx, hname⟩⟩
  · refine ⟨_, t', heq, ht'.lookup_eq_some_iff.mpr ⟨?_, rfl⟩⟩
    rw [symbolsOf_concat]
    exact List.mem_append_right _ (List.mem_singleton_self _)
  · exact absurd hgrow hcannot

inductive Request where
  | intern (name : String)
  | lookup (name : String)

inductive Event where
  | interned (name : String) (answer : Except SymbolTableError Symbol)
  | found (name : String) (answer : Option Symbol)

def Request.isIntern : Request → Bool
  | intern _ => true
  | lookup _ => false

def Event.isInterned : Event → Bool
  | interned _ _ => true
  | found _ _ => false

/-- The name that an event added or found by interning. -/
def Event.name? : Event → Option String
  | interned name (.ok _) => some name
  | _ => none

def answerAll : List Request → SymbolTable → List Event × SymbolTable
  | [], t => ([], t)
  | .intern name :: requests, t =>
    let (log, after) := answerAll requests (t.intern name).2
    (.interned name (t.intern name).1 :: log, after)
  | .lookup name :: requests, t =>
    let (log, after) := answerAll requests t
    (.found name (t.lookup name) :: log, after)

/-- The successful answers in a log are the symbols of `names`. -/
def Logged (log : List Event) (names : List String) : Prop :=
  ∀ name x, .interned name (.ok x) ∈ log ↔ x ∈ symbolsOf names ∧ x.name = name

/-- Every look-up in a log finds what was interned before it, or in `past`. -/
def FindsInterned (past log : List Event) : Prop :=
  ∀ before name answer rest, log = before ++ .found name answer :: rest →
    ∀ x, answer = some x ↔ .interned name (.ok x) ∈ past ++ before

private theorem findsInterned_cons {past log : List Event} {event : Event}
    (hevent : ∀ name answer, event = .found name answer →
      ∀ x, answer = some x ↔ .interned name (.ok x) ∈ past)
    (hlog : FindsInterned (past ++ [event]) log) : FindsInterned past (event :: log) := by
  intro before name answer rest heq
  cases before with
  | nil =>
    rw [List.nil_append, List.cons.injEq] at heq
    rw [List.append_nil]
    exact hevent name answer heq.1
  | cons first before =>
    rw [List.cons_append, List.cons.injEq] at heq
    obtain ⟨rfl, heq⟩ := heq
    have htail := hlog before name answer rest heq
    rwa [List.append_assoc, List.singleton_append] at htail

private theorem logged_concat {log : List Event} {event : Event} (h : Logged log names)
    (hevent : ∀ name x, event = .interned name (.ok x) → x ∈ symbolsOf names ∧ x.name = name) :
    Logged (log ++ [event]) names := by
  intro name x
  rw [List.mem_append, List.mem_singleton, h name x]
  constructor
  · rintro (hmem | hlast)
    · exact hmem
    · exact hevent name x hlast.symm
  · exact .inl

private theorem logged_extend {log : List Event} {added : String} (h : Logged log names) :
    Logged (log ++ [.interned added (.ok ⟨names.length, added⟩)]) (names ++ [added]) := by
  intro name x
  rw [List.mem_append, List.mem_singleton, h name x, symbolsOf_concat, List.mem_append,
    List.mem_singleton]
  constructor
  · rintro (⟨hmem, hname⟩ | hlast)
    · exact ⟨.inl hmem, hname⟩
    · simp only [Event.interned.injEq, Except.ok.injEq] at hlast
      obtain ⟨rfl, rfl⟩ := hlast
      exact ⟨.inr rfl, rfl⟩
  · rintro ⟨hmem | rfl, hname⟩
    · exact .inl ⟨hmem, hname⟩
    · exact .inr (by rw [← hname])

/-- Requests keep a table and its log in step with a list of names. -/
theorem answerAll_refines (requests : List Request) {past : List Event}
    (ht : t.Represents names) (hpast : Logged past names) :
    ∃ names', (answerAll requests t).2.Represents names' ∧
      Logged (past ++ (answerAll requests t).1) names' ∧
      FindsInterned past (answerAll requests t).1 := by
  induction requests generalizing t names past with
  | nil =>
    refine ⟨names, ht, by rwa [answerAll, List.append_nil], ?_⟩
    intro before name answer rest heq
    simp [answerAll] at heq
  | cons request requests ih =>
    cases request with
    | lookup name =>
      have hlogged : Logged (past ++ [.found name (t.lookup name)]) names :=
        logged_concat hpast (by intro _ _ heq; simp at heq)
      obtain ⟨names', hrep, hlog, hfinds⟩ := ih ht hlogged
      rw [List.append_assoc] at hlog
      refine ⟨names', hrep, hlog, findsInterned_cons ?_ hfinds⟩
      intro name' answer heq x
      simp only [Event.found.injEq] at heq
      obtain ⟨rfl, rfl⟩ := heq
      rw [ht.lookup_eq_some_iff, hpast]
    | intern name =>
      -- however interning ends, table and log stay in step
      obtain ⟨names₁, hrep₁, hlogged⟩ : ∃ names₁, (t.intern name).2.Represents names₁ ∧
          Logged (past ++ [.interned name (t.intern name).1]) names₁ := by
        rcases ht.intern_cases name with
          ⟨x, hmem, hname, heq⟩ | ⟨-, t', heq, hrep, -⟩ | ⟨-, -, heq⟩
        · rw [heq]
          refine ⟨names, ht, logged_concat hpast ?_⟩
          intro name' y hy
          simp only [Event.interned.injEq, Except.ok.injEq] at hy
          obtain ⟨rfl, rfl⟩ := hy
          exact ⟨hmem, hname⟩
        · rw [heq]
          exact ⟨names ++ [name], hrep, logged_extend hpast⟩
        · rw [heq]
          exact ⟨names, ht, logged_concat hpast (by intro _ _ hy; simp at hy)⟩
      obtain ⟨names', hrep, hlog, hfinds⟩ := ih hrep₁ hlogged
      rw [List.append_assoc] at hlog
      refine ⟨names', hrep, hlog, findsInterned_cons ?_ hfinds⟩
      intro _ _ heq
      simp at heq

theorem answerAll_filter_isIntern (requests : List Request) (t : SymbolTable) :
    answerAll (requests.filter Request.isIntern) t =
      ((answerAll requests t).1.filter Event.isInterned, (answerAll requests t).2) := by
  induction requests generalizing t with
  | nil => rfl
  | cons request requests ih =>
    cases request with
    | intern name =>
      rw [List.filter_cons_of_pos rfl, answerAll, answerAll]
      dsimp only
      rw [ih, List.filter_cons_of_pos rfl]
    | lookup name =>
      rw [List.filter_cons_of_neg (by simp [Request.isIntern]), ih, answerAll]
      dsimp only
      rw [List.filter_cons_of_neg (by simp [Event.isInterned])]

private theorem mem_filterMap_name? {log : List Event} {name : String} :
    name ∈ log.filterMap Event.name? ↔ ∃ x, .interned name (.ok x) ∈ log := by
  rw [List.mem_filterMap]
  constructor
  · rintro ⟨event, hmem, hname⟩
    cases event with
    | found name' answer => simp [Event.name?] at hname
    | interned name' answer =>
      cases answer with
      | error e => simp [Event.name?] at hname
      | ok x =>
        obtain rfl : name' = name := by simpa [Event.name?] using hname
        exact ⟨x, hmem⟩
  · rintro ⟨x, hmem⟩
    exact ⟨_, hmem, rfl⟩

theorem size_eq_length_dedup {log : List Event} (ht : t.Represents names)
    (hlog : Logged log names) : t.size = (log.filterMap Event.name?).dedup.length := by
  have hperm : names.Perm (log.filterMap Event.name?).dedup := by
    rw [List.perm_ext_iff_of_nodup ht.distinct (List.nodup_dedup _)]
    intro name
    rw [List.mem_dedup, mem_filterMap_name?]
    constructor
    · intro hmem
      obtain ⟨i, hi, hget⟩ := List.getElem_of_mem hmem
      refine ⟨⟨i, name⟩, (hlog name _).mpr ⟨?_, rfl⟩⟩
      exact mem_symbolsOf.mpr (List.getElem?_eq_some_iff.mpr ⟨hi, hget⟩)
    · rintro ⟨x, hx⟩
      obtain ⟨hmem, rfl⟩ := (hlog name x).mp hx
      exact List.mem_of_getElem? (mem_symbolsOf.mp hmem)
  rw [size, ht.occupied, hperm.length_eq]

/-- Interning is a map from names to symbols, whatever the hash function, the capacity and its
limit, and in every order of requests: one symbol per name, look-ups find exactly what was interned
before them and change nothing, and the size is the number of names. -/
theorem interning_refines_map (hash : NameHash) (capacity : Nat) (maxCapacity : Option Nat)
    (requests : List Request) :
    let start := withCapacity capacity maxCapacity hash
    let log := (answerAll requests start).1
    let t := (answerAll requests start).2
    (∀ a x b y, .interned a (.ok x) ∈ log → .interned b (.ok y) ∈ log →
      (x.same y = true ↔ a = b)) ∧
    (∀ a x, .interned a (.ok x) ∈ log → x.name = a) ∧
    (∀ before name answer rest, log = before ++ .found name answer :: rest →
      ∀ x, answer = some x ↔ .interned name (.ok x) ∈ before) ∧
    answerAll (requests.filter Request.isIntern) start = (log.filter Event.isInterned, t) ∧
    t.size = (log.filterMap Event.name?).dedup.length := by
  intro start log t
  have hstart : Logged [] [] := by
    intro name x
    simp [symbolsOf]
  obtain ⟨names, hrep, hlog, hfinds⟩ :=
    answerAll_refines requests (represents_withCapacity capacity maxCapacity hash) hstart
  refine ⟨?_, ?_, hfinds, answerAll_filter_isIntern requests start, size_eq_length_dedup hrep hlog⟩
  · intro a x b y hx hy
    obtain ⟨hxmem, rfl⟩ := (hlog a x).mp hx
    obtain ⟨hymem, rfl⟩ := (hlog b y).mp hy
    exact same_iff_name_eq hrep.distinct hxmem hymem
  · intro a x hx
    exact ((hlog a x).mp hx).2

/-- A table that may not grow past three slots, all names in one run of them: the third name is
refused, and the first is still found. -/
theorem interning_in_full_table :
    let log : List Event :=
      [.interned "a" (.ok ⟨0, "a"⟩), .interned "b" (.ok ⟨1, "b"⟩),
        .interned "c" (.error (.capacityExceeded 3)), .found "c" none,
        .interned "a" (.ok ⟨0, "a"⟩)]
    (answerAll [.intern "a", .intern "b", .intern "c", .lookup "c", .intern "a"]
      (withCapacity 3 (some 3) (fun _ => 2))).1 = log ∧
      (Symbol.same ⟨0, "a"⟩ ⟨1, "b"⟩ = true ↔ "a" = "b") := by
  intro log
  have hlog : (answerAll [.intern "a", .intern "b", .intern "c", .lookup "c", .intern "a"]
      (withCapacity 3 (some 3) (fun _ => 2))).1 = log := by
    cbv
  have hmap := interning_refines_map (fun _ => 2) 3 (some 3)
    [.intern "a", .intern "b", .intern "c", .lookup "c", .intern "a"]
  refine ⟨hlog, hmap.1 "a" ⟨0, "a"⟩ "b" ⟨1, "b"⟩ ?_ ?_⟩
  · rw [hlog]
    exact List.mem_cons_self ..
  · rw [hlog]
    exact List.mem_cons_of_mem _ (List.mem_cons_self ..)

end MiniScheme.SymbolTable
