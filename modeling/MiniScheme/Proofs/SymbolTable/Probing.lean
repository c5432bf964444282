import Mathlib.Data.List.Dedup
import MiniScheme.SymbolTable
/-! # Probing

A search walks from the start slot of a name to the first slot that is empty or holds the name. It
finds every stored symbol as long as no slot on the way from the symbol's start slot to its own slot
is empty. Filling the slot where a search ended keeps this so, and so does moving all symbols to a
larger table.
-/
namespace MiniScheme.SymbolTable

variable {hash : NameHash} {slots : Array (Option Symbol)}

/-- The slot `k` places after `start` among `size` slots, wrapping. -/
def walk (size start k : Nat) : Nat := (start + k) % size

def stored (slots : Array (Option Symbol)) : List Symbol := slots.toList.filterMap id

/-- Every symbol is reached from its start slot without meeting an empty slot. -/
def Reached (hash : NameHash) (slots : Array (Option Symbol)) : Prop :=
  ∀ i x, slots.getD i none = some x →
    ∃ k < slots.size, i = walk slots.size (startIndex hash slots.size x.name) k ∧
      ∀ j < k, slots.getD (walk slots.size (startIndex hash slots.size x.name) j) none ≠ none

private theorem walk_succ (size start k : Nat) :
    (walk size start k + 1) % size = walk size start (k + 1) := by
  rw [walk, walk, Nat.mod_add_mod, Nat.add_assoc]

private theorem exists_walk {size start i : Nat} (hstart : start < size) (hi : i < size) :
    ∃ k < size, walk size start k = i := by
  by_cases hle : start ≤ i
  · refine ⟨i - start, by omega, ?_⟩
    rw [walk, Nat.add_sub_cancel' hle, Nat.mod_eq_of_lt hi]
  · refine ⟨i + size - start, by omega, ?_⟩
    rw [walk, Nat.add_sub_cancel' (by omega), Nat.add_mod_right, Nat.mod_eq_of_lt hi]

private theorem startIndex_lt {size : Nat} (hash : NameHash) (h : 0 < size) (name : String) :
    startIndex hash size name < size :=
  Nat.mod_lt _ h

private theorem mem_stored {x : Symbol} : x ∈ stored slots ↔ ∃ i, slots.getD i none = some x := by
  simp only [stored, List.mem_filterMap, id_eq, exists_eq_right, Array.mem_toList_iff,
    Array.mem_iff_getElem?, Array.getD_eq_getD_getElem?]
  constructor
  · rintro ⟨i, hi⟩
    exact ⟨i, by rw [hi]; rfl⟩
  · rintro ⟨i, hi⟩
    cases hslot : slots[i]? with
    | none => rw [hslot] at hi; simp at hi
    | some slot => rw [hslot] at hi; exact ⟨i, by rw [hslot, ← hi]; rfl⟩

private theorem getD_setIfInBounds (slots : Array (Option Symbol)) (i j : Nat) (x : Option Symbol) :
    (slots.setIfInBounds i x).getD j none =
      if i = j ∧ i < slots.size then x else slots.getD j none := by
  simp only [Array.getD_eq_getD_getElem?, Array.getElem?_setIfInBounds]
  by_cases hij : i = j
  · subst hij
    by_cases hi : i < slots.size
    · simp [hi]
    · simp [hi]
  · simp [hij]

theorem exists_empty_slot (h : (stored slots).length < slots.size) :
    ∃ i < slots.size, slots.getD i none = none := by
  apply Classical.byContradiction
  intro hfull
  have hall : ∀ slot ∈ slots.toList, slot ≠ none := by
    intro slot hmem hslot
    obtain ⟨i, hi, hget⟩ := List.getElem_of_mem hmem
    rw [Array.getElem_toList] at hget
    rw [Array.length_toList] at hi
    refine hfull ⟨i, hi, ?_⟩
    rw [Array.getD_eq_getD_getElem?, Array.getElem?_eq_getElem hi, hget, hslot]
    rfl
  have hlen : (stored slots).length = slots.size := by
    rw [← Array.length_toList, stored, List.filterMap_length_eq_length]
    intro slot hmem
    exact Option.isSome_iff_ne_none.mpr (hall slot hmem)
  omega

private theorem filterMap_set_perm (l : List (Option Symbol)) (i : Nat) (x : Symbol)
    (h : l[i]? = some none) : ((l.set i (some x)).filterMap id).Perm (x :: l.filterMap id) := by
  induction l generalizing i with
  | nil => simp at h
  | cons slot l ih =>
    cases i with
    | zero =>
      simp only [List.getElem?_cons_zero, Option.some.injEq] at h
      subst h
      simp
    | succ i =>
      rw [List.getElem?_cons_succ] at h
      rw [List.set_cons_succ]
      cases slot with
      | none => simpa using ih i h
      | some y =>
        simp only [List.filterMap_cons_some (f := id) rfl]
        exact ((ih i h).cons y).trans (List.Perm.swap x y _)

theorem stored_set_perm {i : Nat} (x : Symbol) (hi : i < slots.size)
    (h : slots.getD i none = none) :
    (stored (slots.setIfInBounds i (some x))).Perm (x :: stored slots) := by
  unfold stored
  rw [Array.toList_setIfInBounds]
  apply filterMap_set_perm
  rw [Array.getElem?_toList, Array.getElem?_eq_getElem hi]
  rw [Array.getD_eq_getD_getElem?, Array.getElem?_eq_getElem hi] at h
  exact congrArg some h

theorem stored_replicate (n : Nat) : stored (Array.replicate n none) = [] := by
  simp [stored, Array.toList_replicate]

/-- A slot on a walk that holds another name. -/
def Passes (slots : Array (Option Symbol)) (name : String) (i : Nat) : Prop :=
  ∃ x, slots.getD i none = some x ∧ x.name ≠ name

/-- What the end of a search from place `k` of a walk on, over `steps` places, says about the
slots. -/
def ProbeEnds (slots : Array (Option Symbol)) (name : String) (start k steps : Nat) : Probe → Prop
  | .hit x => x ∈ stored slots ∧ x.name = name
  | .free i =>
    ∃ l, k ≤ l ∧ l < k + steps ∧ i = walk slots.size start l ∧ slots.getD i none = none ∧
      ∀ j, k ≤ j → j < l → Passes slots name (walk slots.size start j)
  | .exhausted => ∀ j, k ≤ j → j < k + steps → Passes slots name (walk slots.size start j)

private theorem probe_ends (slots : Array (Option Symbol)) (name : String) (start k steps : Nat) :
    ProbeEnds slots name start k steps (probe slots name steps (walk slots.size start k)) := by
  induction steps generalizing k with
  | zero =>
    intro j hk hj
    omega
  | succ steps ih =>
    rw [probe]
    cases hslot : slots.getD (walk slots.size start k) none with
    | none =>
      refine ⟨k, Nat.le_refl _, by omega, rfl, hslot, ?_⟩
      intro j hk hj
      omega
    | some x =>
      by_cases hname : x.name = name
      · simp only [hname, ite_true]
        exact ⟨mem_stored.mpr ⟨_, hslot⟩, hname⟩
      · have hpass : Passes slots name (walk slots.size start k) := ⟨x, hslot, hname⟩
        have hrest := ih (k + 1)
        simp only [hname, ite_false, walk_succ]
        revert hrest
        cases probe slots name steps (walk slots.size start (k + 1)) with
        | hit y => exact id
        | free i =>
          rintro ⟨l, hkl, hl, hi, hnone, hpasses⟩
          refine ⟨l, by omega, by omega, hi, hnone, ?_⟩
          intro j hkj hjl
          by_cases hjk : j = k
          · subst hjk; exact hpass
          · exact hpasses j (by omega) hjl
        | exhausted =>
          intro hpasses j hkj hjl
          by_cases hjk : j = k
          · subst hjk; exact hpass
          · exact hpasses j (by omega) (by omega)

private theorem search_ends (h : 0 < slots.size) (hash : NameHash) (name : String) :
    ProbeEnds slots name (startIndex hash slots.size name) 0 slots.size
      (search hash slots name) := by
  have hends := probe_ends slots name (startIndex hash slots.size name) 0 slots.size
  have hstart : walk slots.size (startIndex hash slots.size name) 0 =
      startIndex hash slots.size name := by
    rw [walk, Nat.add_zero, Nat.mod_eq_of_lt (startIndex_lt hash h name)]
  rw [hstart] at hends
  exact hends

/-- A search ends at the stored symbol of its name. -/
theorem search_eq_hit_iff (hpos : 0 < slots.size) (hreached : Reached hash slots)
    (hnames : ((stored slots).map Symbol.name).Nodup) {name : String} {x : Symbol} :
    search hash slots name = .hit x ↔ x ∈ stored slots ∧ x.name = name := by
  have hends := search_ends hpos hash name
  constructor
  · intro h
    rw [h] at hends
    exact hends
  · rintro ⟨hmem, rfl⟩
    obtain ⟨i, hi⟩ := mem_stored.mp hmem
    obtain ⟨k, hk, rfl, hfilled⟩ := hreached i x hi
    have hown : ¬ Passes slots x.name
        (walk slots.size (startIndex hash slots.size x.name) k) := by
      rintro ⟨y, hy, hne⟩
      rw [hi] at hy
      obtain rfl := Option.some.inj hy
      exact hne rfl
    cases hsearch : search hash slots x.name with
    | hit y =>
      rw [hsearch] at hends
      obtain ⟨hy, hyname⟩ := hends
      rw [List.inj_on_of_nodup_map hnames hy hmem hyname]
    | free j =>
      rw [hsearch] at hends
      obtain ⟨l, -, hl, rfl, hnone, hpasses⟩ := hends
      rcases Nat.lt_trichotomy l k with hlk | rfl | hkl
      · exact absurd hnone (hfilled l hlk)
      · rw [hi] at hnone; simp at hnone
      · exact absurd (hpasses k (Nat.zero_le _) hkl) hown
    | exhausted =>
      rw [hsearch] at hends
      exact absurd (hends k (Nat.zero_le _) (by omega)) hown

/-- A search does not come back to its start in a table with an empty slot. -/
theorem search_ne_exhausted (h : (stored slots).length < slots.size) (hash : NameHash)
    (name : String) : search hash slots name ≠ .exhausted := by
  intro hsearch
  have hpos : 0 < slots.size := by omega
  have hends := search_ends hpos hash name
  rw [hsearch] at hends
  obtain ⟨i, hi, hnone⟩ := exists_empty_slot h
  obtain ⟨k, hk, rfl⟩ := exists_walk (startIndex_lt hash hpos name) hi
  obtain ⟨x, hx, -⟩ := hends k (Nat.zero_le _) (by omega)
  rw [hnone] at hx
  simp at hx

theorem search_eq_free (hpos : 0 < slots.size) {name : String} {i : Nat}
    (h : search hash slots name = .free i) :
    i < slots.size ∧ slots.getD i none = none ∧
      ∃ k < slots.size, i = walk slots.size (startIndex hash slots.size name) k ∧
        ∀ j < k, slots.getD (walk slots.size (startIndex hash slots.size name) j) none ≠ none := by
  have hends := search_ends hpos hash name
  rw [h] at hends
  obtain ⟨k, -, hk, rfl, hnone, hpasses⟩ := hends
  refine ⟨Nat.mod_lt _ hpos, hnone, k, by omega, rfl, ?_⟩
  intro j hj
  obtain ⟨x, hx, -⟩ := hpasses j (Nat.zero_le _) hj
  rw [hx]
  simp

theorem reached_insert (hpos : 0 < slots.size) (hreached : Reached hash slots) {x : Symbol}
    {i : Nat} (h : search hash slots x.name = .free i) :
    Reached hash (slots.setIfInBounds i (some x)) := by
  obtain ⟨hi, hnone, k, hk, hwalk, hfilled⟩ := search_eq_free hpos h
  -- filling a slot leaves the filled ones filled
  have hkeeps : ∀ j, slots.getD j none ≠ none →
      (slots.setIfInBounds i (some x)).getD j none ≠ none := by
    intro j hj
    rw [getD_setIfInBounds]
    split
    · simp
    · exact hj
  intro j y hy
  rw [getD_setIfInBounds] at hy
  rw [Array.size_setIfInBounds]
  by_cases hij : i = j
  · rw [if_pos ⟨hij, hi⟩] at hy
    obtain rfl := Option.some.inj hy
    exact ⟨k, hk, hij.symm.trans hwalk, fun l hl => hkeeps _ (hfilled l hl)⟩
  · rw [if_neg (fun h => hij h.1)] at hy
    obtain ⟨l, hl, hjl, hfilled'⟩ := hreached j y hy
    exact ⟨l, hl, hjl, fun p hp => hkeeps _ (hfilled' p hp)⟩

theorem firstFree_eq_some_iff {name : String} (hfresh : ∀ x ∈ stored slots, x.name ≠ name)
    (steps index i : Nat) :
    firstFree slots steps index = some i ↔ probe slots name steps index = .free i := by
  induction steps generalizing index with
  | zero => simp [firstFree, probe]
  | succ steps ih =>
    rw [firstFree, probe]
    cases hslot : slots.getD index none with
    | none => simp
    | some x =>
      have hne : x.name ≠ name := hfresh x (mem_stored.mpr ⟨index, hslot⟩)
      simp only [hne, ite_false]
      exact ih _

/-- Symbols with names of their own all find a place in slots with room for them. -/
theorem placeAll_eq_ok (symbols : List Symbol) (hpos : 0 < slots.size)
    (hroom : symbols.length + (stored slots).length ≤ slots.size) (hreached : Reached hash slots)
    (hnames : ((symbols ++ stored slots).map Symbol.name).Nodup) :
    ∃ placed, placeAll hash symbols slots = .ok placed ∧ placed.size = slots.size ∧
      Reached hash placed ∧ (stored placed).Perm (symbols ++ stored slots) := by
  induction symbols generalizing slots with
  | nil => exact ⟨slots, rfl, rfl, hreached, List.Perm.refl _⟩
  | cons x symbols ih =>
    rw [List.cons_append, List.map_cons, List.nodup_cons] at hnames
    obtain ⟨hfresh, hrest⟩ := hnames
    rw [List.length_cons] at hroom
    have hnew : ∀ y ∈ stored slots, y.name ≠ x.name := by
      intro y hy hname
      exact hfresh (hname ▸ List.mem_map_of_mem (List.mem_append_right _ hy))
    cases hsearch : search hash slots x.name with
    | hit y =>
      have hends := search_ends hpos hash x.name
      rw [hsearch] at hends
      exact absurd hends.2 (hnew y hends.1)
    | exhausted => exact absurd hsearch (search_ne_exhausted (by omega) hash x.name)
    | free i =>
      obtain ⟨hi, hnone, -⟩ := search_eq_free hpos hsearch
      have hperm := stored_set_perm x hi hnone
      have hfree : firstFree slots slots.size (startIndex hash slots.size x.name) = some i :=
        (firstFree_eq_some_iff hnew _ _ _).mpr hsearch
      have hmoved : (symbols ++ stored (slots.setIfInBounds i (some x))).Perm
          (x :: (symbols ++ stored slots)) :=
        (hperm.append_left symbols).trans List.perm_middle
      have hlen := hperm.length_eq
      rw [List.length_cons] at hlen
      have hmore : symbols.length + (stored (slots.setIfInBounds i (some x))).length ≤
          (slots.setIfInBounds i (some x)).size := by
        rw [Array.size_setIfInBounds]
        omega
      have hdistinct : ((symbols ++ stored (slots.setIfInBounds i (some x))).map
          Symbol.name).Nodup :=
        (hmoved.map Symbol.name).nodup_iff.mpr (List.nodup_cons.mpr ⟨hfresh, hrest⟩)
      obtain ⟨placed, hplaced, hsize, hreached', hstored⟩ :=
        ih (by rwa [Array.size_setIfInBounds]) hmore (reached_insert hpos hreached hsearch)
          hdistinct
      refine ⟨placed, ?_, ?_, hreached', hstored.trans hmoved⟩
      · rw [placeAll, hfree]
        exact hplaced
      · rw [hsize, Array.size_setIfInBounds]

theorem reached_replicate (hash : NameHash) (n : Nat) : Reached hash (Array.replicate n none) := by
  intro i x h
  have hmem : x ∈ stored (Array.replicate n none) := mem_stored.mpr ⟨i, h⟩
  rw [stored_replicate] at hmem
  simp at hmem

end MiniScheme.SymbolTable
