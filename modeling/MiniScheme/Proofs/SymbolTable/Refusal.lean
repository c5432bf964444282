import MiniScheme.Proofs.SymbolTable.Vacancy
/-! # Refused names

Interning fails for one reason: the name is new, one symbol more would crowd the slots, and the table
may not grow. Insertion may then be undone, as the slot that the search stopped at was empty, so
nothing shows later that the name was ever asked for.
-/
namespace MiniScheme.SymbolTable

variable {t : SymbolTable} {names : List String} {name : String}

/-- Interning that fills the slot first and empties it again if the table may not grow. -/
def internInPlace (t : SymbolTable) (name : String) : Except SymbolTableError Symbol × SymbolTable :=
  match search t.hash t.slots name with
  | .hit symbol => (.ok symbol, t)
  | .exhausted => (.error (.noFreeSlot name t.slots.size), t)
  | .free index =>
    let symbol : Symbol := ⟨t.occupied, name⟩
    let filled : SymbolTable :=
      { t with slots := t.slots.setIfInBounds index (some symbol), occupied := t.occupied + 1 }
    if isCrowded filled.occupied filled.slots.size then
      match filled.grownSlots filled.slots with
      | .ok slots => (.ok symbol, { filled with slots := slots })
      | .error e =>
        (.error e, { filled with
          slots := filled.slots.setIfInBounds index none
          occupied := filled.occupied - 1 })
    else (.ok symbol, filled)

theorem empty_filled {slots : Array (Option Symbol)} {i : Nat} (x : Symbol)
    (h : slots.getD i none = none) :
    (slots.setIfInBounds i (some x)).setIfInBounds i none = slots := by
  apply Array.ext_getElem?
  intro j
  rw [Array.setIfInBounds_setIfInBounds, Array.getElem?_setIfInBounds]
  by_cases hij : i = j
  · subst hij
    rw [if_pos rfl]
    rw [Array.getD_eq_getD_getElem?] at h
    by_cases hi : i < slots.size
    · rw [Array.getElem?_eq_getElem hi, Option.getD_some] at h
      rw [if_pos hi, Array.getElem?_eq_getElem hi, h]
    · rw [if_neg hi, Array.getElem?_eq_none (Nat.le_of_not_lt hi)]
  · rw [if_neg hij]

private theorem internInPlace_eq_intern (hnonempty : 0 < t.slots.size) (name : String) :
    t.internInPlace name = t.intern name := by
  unfold internInPlace intern
  cases hsearch : search t.hash t.slots name with
  | hit x => rfl
  | exhausted => rfl
  | free i =>
    obtain ⟨-, hnone, -⟩ := search_eq_free hnonempty hsearch
    dsimp only
    rw [Array.size_setIfInBounds]
    split
    · change (match t.grownSlots _ with | .ok _ => _ | .error _ => _) = _
      cases t.grownSlots (t.slots.setIfInBounds i (some ⟨t.occupied, name⟩)) with
      | ok slots => rfl
      | error e =>
        dsimp only
        rw [empty_filled _ hnone]
        rfl
    · rfl

theorem Represents.mem_iff (h : t.Represents names) :
    name ∈ names ↔ ∃ x ∈ t.toList, x.name = name := by
  have hmap := (h.holds.map Symbol.name).mem_iff (a := name)
  rw [map_name_symbolsOf, List.mem_map] at hmap
  exact hmap.symm

/-- Interning fails exactly if a new name would crowd a table that may not grow. -/
theorem Represents.intern_fails_iff (h : t.Represents names) :
    (∃ e, (t.intern name).1 = .error e) ↔
      name ∉ names ∧ 3 * t.slots.size < 4 * (t.occupied + 1) ∧ ¬ t.CanGrow := by
  rw [h.occupied]
  rcases h.intern_outcome name with
    ⟨x, hx, rfl, heq⟩ | ⟨hfresh, ⟨t', heq, -, -, hroom⟩ | ⟨heq, hcrowded, hcannot⟩⟩
  · have hmem : x.name ∈ names := List.mem_of_getElem? (mem_symbolsOf.mp hx)
    simp [heq, hmem]
  · simp only [heq, reduceCtorEq, exists_false, false_iff]
    rintro ⟨-, hcrowded, hcannot⟩
    rcases hroom with ⟨-, hfits⟩ | ⟨-, -, hgrow⟩
    · exact absurd hfits (Nat.not_le_of_lt hcrowded)
    · exact hcannot hgrow
  · simp [heq, hfresh, hcrowded, hcannot]

theorem Represents.intern_of_error (h : t.Represents names) {e : SymbolTableError}
    (he : (t.intern name).1 = .error e) :
    t.intern name = (.error (.capacityExceeded t.slots.size), t) := by
  rcases h.intern_cases name with ⟨x, -, -, heq⟩ | ⟨-, t', heq, -⟩ | ⟨-, -, heq⟩
  · simp [heq] at he
  · simp [heq] at he
  · exact heq

theorem grows_answerAll (requests : List Request) (h : t.InOrder) :
    t.Grows (answerAll requests t).2 := by
  induction requests generalizing t with
  | nil => exact h.grows_refl
  | cons request requests ih =>
    cases request with
    | intern name =>
      have hstep := (h.grows_intern name).1
      exact hstep.trans (ih hstep.inOrder)
    | lookup name => exact ih h

/-- Interning is refused, after any requests and whatever the hash function, exactly if the name is in
no slot, one more symbol would fill over three quarters of the slots, and the next capacity does not
fit a word or is over the limit. The error is then the one that gives the present capacity, the table
is the one from before, and all later requests are answered as if the name had not been asked for. To
fill the slot first and empty it on refusal comes to the same. -/
theorem refusal_leaves_no_trace (hash : NameHash) (capacity : Nat) (maxCapacity : Option Nat)
    (requests : List Request) (name : String) :
    let t := (answerAll requests (withCapacity capacity maxCapacity hash)).2
    ((∃ e, (t.intern name).1 = .error e) ↔
      (∀ x ∈ t.toList, x.name ≠ name) ∧ 3 * t.capacity < 4 * (t.size + 1) ∧
        (0x10000000000000000 ≤ 2 * (t.capacity + 1) ∨
          ∃ limit, maxCapacity = some limit ∧ limit < 2 * (t.capacity + 1) - 1)) ∧
    (∀ e, (t.intern name).1 = .error e →
      e = .capacityExceeded t.capacity ∧ (t.intern name).2 = t ∧
      ∀ later, answerAll (.intern name :: later) t =
        (.interned name (.error e) :: (answerAll later t).1, (answerAll later t).2)) ∧
    t.internInPlace name = t.intern name := by
  intro t
  have hgrows : Grows _ t :=
    grows_answerAll requests (inOrder_withCapacity capacity maxCapacity hash)
  obtain ⟨names, ht⟩ := hgrows.inOrder
  have hmax : t.maxCapacity = maxCapacity := hgrows.maxCapacity
  refine ⟨?_, ?_, internInPlace_eq_intern ht.nonempty name⟩
  · rw [ht.intern_fails_iff, not_canGrow_iff, ht.mem_iff, hmax]
    simp only [not_exists, not_and]
    rfl
  · intro e he
    have heq := ht.intern_of_error he
    have hcapacity : e = .capacityExceeded t.capacity := ht.intern_error he
    refine ⟨hcapacity, by rw [heq], fun later => ?_⟩
    rw [answerAll, heq, hcapacity]
    rfl

/-- Three slots, two of them filled, and no more than six allowed: seven would be next, so a third
name is refused, however often it is asked for, and the second is found. -/
theorem third_name_refused :
    let t := (answerAll [.intern "a", .intern "b"] (withCapacity 3 (some 6) (fun _ => 2))).2
    (t.intern "c").1 = .error (.capacityExceeded 3) ∧ (t.intern "c").2 = t ∧
      (answerAll [.intern "c", .intern "c", .lookup "b"] t).1 =
        [.interned "c" (.error (.capacityExceeded 3)), .interned "c" (.error (.capacityExceeded 3)),
          .found "b" (some ⟨1, "b"⟩)] := by
  intro t
  obtain ⟨hfails, hafter, -⟩ := refusal_leaves_no_trace (fun _ => 2) 3 (some 6)
    [.intern "a", .intern "b"] "c"
  obtain ⟨e, he⟩ := hfails.mpr ⟨by decide +kernel, by decide +kernel, .inr ⟨6, rfl, by decide +kernel⟩⟩
  obtain ⟨rfl, hsame, hlater⟩ := hafter e he
  refine ⟨he, hsame, ?_⟩
  rw [hlater, hlater]
  rfl

end MiniScheme.SymbolTable
