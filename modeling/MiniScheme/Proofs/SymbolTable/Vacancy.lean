import MiniScheme.Proofs.SymbolTable.Growth
/-! # There is always an empty slot

A table counts its filled slots right, holds each name once, leaves no gap between a symbol and its
start slot, and keeps a quarter of its slots empty. So a search stops at a symbol of its name or at an
empty slot, and neither interning nor the move to a larger table ever runs out of slots.
-/
namespace MiniScheme.SymbolTable

variable {t : SymbolTable} {names : List String}

private theorem length_stored_eq_countP (slots : Array (Option Symbol)) :
    (stored slots).length = slots.countP Option.isSome := by
  rw [stored, List.length_filterMap_eq_countP, ← Array.countP_toList]
  rfl

private theorem getElem?_of_getD {slots : Array (Option Symbol)} {i : Nat} {x : Symbol}
    (h : slots.getD i none = some x) : slots.toList[i]? = some (some x) := by
  rw [Array.getD_eq_getD_getElem?] at h
  rw [Array.getElem?_toList]
  cases hslot : slots[i]? with
  | none => simp [hslot] at h
  | some slot => simpa [hslot] using h

theorem slot_unique {slots : Array (Option Symbol)}
    (hnames : ((stored slots).map Symbol.name).Nodup) {i j : Nat} {x y : Symbol}
    (hi : slots.getD i none = some x) (hj : slots.getD j none = some y) (hname : x.name = y.name) :
    i = j := by
  have hpairs : slots.toList.Pairwise fun a b =>
      ∀ x, a = some x → ∀ y, b = some y → x.name ≠ y.name := by
    rw [List.Nodup, List.pairwise_map, stored, List.pairwise_filterMap] at hnames
    exact hnames
  obtain ⟨hi, hx⟩ := List.getElem?_eq_some_iff.mp (getElem?_of_getD hi)
  obtain ⟨hj, hy⟩ := List.getElem?_eq_some_iff.mp (getElem?_of_getD hj)
  rw [List.pairwise_iff_getElem] at hpairs
  rcases Nat.lt_trichotomy i j with hlt | heq | hlt
  · exact absurd hname (hpairs i j hi hj hlt x hx y hy)
  · exact heq
  · exact absurd hname.symm (hpairs j i hj hi hlt y hy x hx)

theorem Represents.search_stops (h : t.Represents names) (name : String) :
    (∃ x, search t.hash t.slots name = .hit x ∧ x.name = name) ∨
      ∃ i < t.slots.size, search t.hash t.slots name = .free i ∧ t.slots.getD i none = none := by
  cases hsearch : search t.hash t.slots name with
  | hit x => exact .inl ⟨x, rfl, (h.search_eq_hit_iff.mp hsearch).2⟩
  | free i =>
    have hfree := search_eq_free h.nonempty hsearch
    exact .inr ⟨i, hfree.1, rfl, hfree.2.1⟩
  | exhausted => exact absurd hsearch (search_ne_exhausted h.length_stored_lt t.hash name)

/-- Moving a table with one more symbol to the next capacity finds a slot for each. -/
theorem Represents.grownSlots_insert (h : t.Represents names) {name : String} {i : Nat}
    (hsearch : search t.hash t.slots name = .free i) :
    let slots := t.slots.setIfInBounds i (some ⟨t.occupied, name⟩)
    (∃ placed, t.grownSlots slots = .ok placed) ∨
      t.grownSlots slots = .error (.capacityExceeded t.slots.size) := by
  intro slots
  rcases h.grownSlots_outcome hsearch with ⟨placed, hgrown, -⟩ | ⟨hgrown, -⟩
  · exact .inl ⟨placed, hgrown⟩
  · exact .inr hgrown

theorem Represents.intern_error (h : t.Represents names) {name : String} {e : SymbolTableError}
    (he : (t.intern name).1 = .error e) : e = .capacityExceeded t.slots.size := by
  rcases h.intern_cases name with ⟨x, -, -, heq⟩ | ⟨-, t', heq, -⟩ | ⟨-, -, heq⟩
  · simp [heq] at he
  · simp [heq] at he
  · simpa [heq] using he.symm

/-- Requests leave a table in order, and the only failure among the answers is that the table may not
grow. -/
theorem answerAll_inOrder (requests : List Request) (h : t.InOrder) :
    (answerAll requests t).2.InOrder ∧
      ∀ name e, .interned name (.error e) ∈ (answerAll requests t).1 →
        ∃ capacity, e = .capacityExceeded capacity := by
  induction requests generalizing t with
  | nil => exact ⟨h, by simp [answerAll]⟩
  | cons request requests ih =>
    cases request with
    | lookup name =>
      have hrest := ih h
      simpa [answerAll] using hrest
    | intern name =>
      have hrest := ih (h.grows_intern name).1.inOrder
      refine ⟨hrest.1, ?_⟩
      intro name' e hmem
      rcases List.mem_cons.mp hmem with heq | hmem
      · obtain ⟨names, hnames⟩ := h
        obtain ⟨-, he⟩ := by simpa using heq
        exact ⟨_, hnames.intern_error he.symm⟩
      · exact hrest.2 name' e hmem

/-- A table never runs out of slots, whatever the hash function, the capacity and its limit, and after
every sequence of requests. It counts its filled slots, at most three quarters of all, so that one is
empty; it holds no name twice; and all slots from a symbol's start slot to its own are filled. So every
search stops at the name or at an empty slot, and the error of a search that came round is never
given, neither by interning nor by the move to a larger table. -/
theorem table_never_runs_out_of_slots (hash : NameHash) (capacity : Nat) (maxCapacity : Option Nat)
    (requests : List Request) :
    let start := withCapacity capacity maxCapacity hash
    let log := (answerAll requests start).1
    let t := (answerAll requests start).2
    t.occupied = t.slots.countP Option.isSome ∧
    4 * t.occupied ≤ 3 * t.capacity ∧
    (∃ i < t.capacity, t.slots.getD i none = none) ∧
    (∀ i j x y, t.slots.getD i none = some x → t.slots.getD j none = some y →
      x.name = y.name → i = j) ∧
    (∀ i x, t.slots.getD i none = some x →
      ∃ k < t.capacity, i = walk t.capacity (startIndex t.hash t.capacity x.name) k ∧
        ∀ j < k, t.slots.getD (walk t.capacity (startIndex t.hash t.capacity x.name) j) none ≠
          none) ∧
    (∀ name,
      (∃ x, search t.hash t.slots name = .hit x ∧ x.name = name) ∨
        ∃ i < t.capacity, search t.hash t.slots name = .free i ∧ t.slots.getD i none = none) ∧
    (∀ name e, .interned name (.error e) ∈ log → ∃ capacity, e = .capacityExceeded capacity) ∧
    (∀ name e, (t.intern name).1 = .error e → e = .capacityExceeded t.capacity) ∧
    (∀ name i, search t.hash t.slots name = .free i →
      let slots := t.slots.setIfInBounds i (some ⟨t.occupied, name⟩)
      (∃ placed, t.grownSlots slots = .ok placed) ∨
        t.grownSlots slots = .error (.capacityExceeded t.capacity)) := by
  intro start log t
  obtain ⟨⟨names, ht⟩, hlog⟩ :=
    answerAll_inOrder requests (inOrder_withCapacity capacity maxCapacity hash)
  have hcount : t.occupied = t.slots.countP Option.isSome := by
    rw [← length_stored_eq_countP, ht.length_stored, ht.occupied]
  refine ⟨hcount, ht.roomy, exists_empty_slot ht.length_stored_lt, ?_, ht.reached,
    ht.search_stops, hlog, ?_, ?_⟩
  · intro i j x y hi hj hname
    exact slot_unique ht.nodup_names hi hj hname
  · intro name e he
    exact ht.intern_error he
  · intro name i hsearch
    exact ht.grownSlots_insert hsearch

/-- One slot at the start, all names hashed to the same place, and room for three slots in the end:
the second name makes the table move, the third is refused. -/
theorem slots_after_refused_growth :
    let t := (answerAll [.intern "a", .lookup "b", .intern "b", .intern "c"]
      (withCapacity 1 (some 3) (fun _ => 2))).2
    t.slots = #[some ⟨1, "b"⟩, none, some ⟨0, "a"⟩] ∧
      (∀ i, t.slots.getD i none = some ⟨0, "a"⟩ → i = 2) ∧
      ∀ e, (t.intern "c").1 = .error e → e = .capacityExceeded 3 := by
  have hslots : (answerAll [.intern "a", .lookup "b", .intern "b", .intern "c"]
      (withCapacity 1 (some 3) (fun _ => 2))).2.slots =
      #[some ⟨1, "b"⟩, none, some ⟨0, "a"⟩] := by
    decide +kernel
  have ht := table_never_runs_out_of_slots (fun _ => 2) 1 (some 3)
    [.intern "a", .lookup "b", .intern "b", .intern "c"]
  dsimp only [capacity] at ht ⊢
  rw [hslots] at ht ⊢
  refine ⟨rfl, ?_, ?_⟩
  · intro i hi
    exact ht.2.2.2.1 i 2 ⟨0, "a"⟩ ⟨0, "a"⟩ hi rfl rfl
  · intro e he
    exact ht.2.2.2.2.2.2.2.1 "c" e he

end MiniScheme.SymbolTable
