import MiniScheme.Proofs.Store.Equality
/-! # Digests

A digest is all that a hash is computed from. That of a value on no circle lists the marks of the tree
it unfolds to, a pair before its slots, so it tells nothing of how pairs are shared and where they
are. As every mark says how many trees follow it, the digest determines the tree of atoms in turn:
two values have the same digest exactly if they are equal. A table that looks for a value among the
entries with its hash therefore misses no equal one.
-/
namespace MiniScheme

open Equality

/-- The marks of a tree, a pair before its slots. -/
def Tree.marks : Tree → List Mark
  | atom v => [Mark.of v]
  | pair _ first rest => .pair :: (first.marks ++ rest.marks)

namespace Equality

@[simp] theorem Mark.of_pair (c : CellId) : Mark.of (.pair c) = .pair := rfl

private theorem Mark.of_ne_pair {v : Value} (h : v.isPair = false) : Mark.of v ≠ .pair := by
  cases v <;> simp [Mark.of, Value.isPair] at h ⊢

variable {s : Store} {v : Value} {t : Tree} {room : Nat}

theorem digestAll_cons (ht : s.Unfolds v t) (hroom : t.height ≤ room) (reversed : List Mark)
    (rest : List (Value × Nat)) :
    digestAll s reversed ((v, room) :: rest) = digestAll s (t.marks.reverse ++ reversed) rest := by
  induction ht generalizing room reversed rest with
  | atom v hv =>
    rw [digestAll, Tree.marks, List.reverse_singleton, List.singleton_append]
    rintro c rfl
    simp [Value.isPair] at hv
  | pair c _ _ _ ihf ihr =>
    rw [Tree.height] at hroom
    obtain ⟨n, rfl⟩ : ∃ n, room = n + 1 := ⟨room - 1, by omega⟩
    rw [digestAll, ihf (by omega), ihr (by omega), Tree.marks]
    simp

private theorem digestAll_eq (ht : s.Unfolds v t) (hroom : t.height ≤ room) :
    digestAll s [] [(v, room)] = some t.marks := by
  rw [digestAll_cons ht hroom, digestAll]
  simp

end Equality

namespace Store

variable {s : Store} {a b v w : Value} {t t' : Tree}

private theorem sameUnfolding_iff_mark (hatom : a.isPair = false ∨ b.isPair = false) :
    s.SameUnfolding a b ↔ Mark.of a = Mark.of b := by
  rw [sameUnfolding_iff_same hatom, ← Value.matches_iff_mark, Value.Matches]
  constructor
  · exact .inr
  · rintro (⟨ha, hb⟩ | hsame)
    · simp [ha, hb] at hatom
    · exact hsame

/-- Marks tell where the tree ends and which tree of atoms it is. -/
theorem Unfolds.marks_append_eq_iff (ha : s.Unfolds a t) (hb : s.Unfolds b t') {l l' : List Mark} :
    t.marks ++ l = t'.marks ++ l' ↔ s.SameUnfolding a b ∧ l = l' := by
  induction ha generalizing b t' l l' with
  | atom a ha =>
    rw [sameUnfolding_iff_mark (.inl ha)]
    cases hb with
    | atom _ _ => simp [Tree.marks]
    | pair c _ _ _ =>
      simp [Tree.marks, Mark.of_ne_pair ha]
  | pair c _ _ _ ihf ihr =>
    cases hb with
    | atom b hb =>
      rw [sameUnfolding_iff_mark (.inr hb)]
      simp [Tree.marks, (Mark.of_ne_pair hb).symm]
    | pair d _ hfirst hrest =>
      simp only [Tree.marks, List.cons_append, List.append_assoc, List.cons.injEq, true_and]
      rw [ihf hfirst, ihr hrest, sameUnfolding_pair_iff, and_assoc]

/-- A value in the store and on no circle: one that may be a key. -/
structure Keyable (s : Store) (v : Value) : Prop where
  holds : s.Holds v
  acyclic : s.Acyclic v

namespace Keyable

private theorem exists_unfolds (h : s.Keyable v) : ∃ t, s.Unfolds v t ∧ t.height ≤ s.cells.size :=
  Store.exists_unfolds h.acyclic h.holds

private theorem exists_digest (h : s.Keyable v) :
    ∃ digest, s.digest? v = some digest ∧
      ∀ room, s.cells.size ≤ room → digestAll s [] [(v, room)] = some digest := by
  obtain ⟨t, ht, hheight⟩ := h.exists_unfolds
  have hroom (room : Nat) (hle : s.cells.size ≤ room) : digestAll s [] [(v, room)] = some t.marks :=
    digestAll_eq ht (Nat.le_trans hheight hle)
  exact ⟨t.marks, hroom _ (Nat.le_refl _), hroom⟩

private theorem equal?_eq_true_iff (ha : s.Keyable a) (hb : s.Keyable b) :
    s.equal? a b = some true ↔ s.SameUnfolding a b :=
  Store.equal?_eq_true_iff ha.holds hb.holds (.inl ha.acyclic)

private theorem equal?_eq_false_iff (ha : s.Keyable a) (hb : s.Keyable b) :
    s.equal? a b = some false ↔ ¬ s.SameUnfolding a b := by
  obtain ⟨answer, heq, hanswer⟩ := equal?_decides ha.holds hb.holds (.inl ha.acyclic)
  rw [← hanswer, heq]
  simp

private theorem digest?_eq_iff (ha : s.Keyable a) (hb : s.Keyable b) :
    s.digest? a = s.digest? b ↔ s.SameUnfolding a b := by
  obtain ⟨t, ht, hheight⟩ := ha.exists_unfolds
  obtain ⟨t', ht', hheight'⟩ := hb.exists_unfolds
  have hmarks : t.marks ++ [] = t'.marks ++ [] ↔ _ := ht.marks_append_eq_iff ht'
  rw [digest?, digest?, digestAll_eq ht hheight, digestAll_eq ht' hheight', Option.some.injEq]
  simpa using hmarks

end Keyable

/-- The search of a hash table, which looks at entries with the same hash alone: it finds the position
of an equal entry, and if it finds none, then no entry with the same hash is equal. The table is given by
its entries, the latest first, and `hash` is computed from a digest. -/
structure HashSearch {κ : Type} (s : Store) (hash : List Mark → κ)
    (find : List (Value × Nat) → Value → Option Nat) : Prop where
  found {table : List (Value × Nat)} {v : Value} {i : Nat} :
    (∀ entry ∈ table, s.Keyable entry.1) → s.Keyable v → find table v = some i →
      ∃ w, (w, i) ∈ table ∧ s.equal? w v = some true
  missed {table : List (Value × Nat)} {v : Value} :
    (∀ entry ∈ table, s.Keyable entry.1) → s.Keyable v → find table v = none →
      ∀ w i, (w, i) ∈ table → (s.digest? w).map hash = (s.digest? v).map hash →
        s.equal? w v = some false

/-- Enter values into a table unless they are found there, and answer, for each, the position it was
found or entered at. -/
def enterAll (find : List (Value × Nat) → Value → Option Nat) (table : List (Value × Nat))
    (position : Nat) : List Value → List Nat
  | [] => []
  | v :: vs =>
    match find table v with
    | some found => found :: enterAll find table (position + 1) vs
    | none => position :: enterAll find ((v, position) :: table) (position + 1) vs

/-- The first of the values to equal `v` is at this position. -/
def FirstEqual (s : Store) (values : List Value) (v : Value) (position : Nat) : Prop :=
  (∃ w, values[position]? = some w ∧ s.equal? w v = some true) ∧
    ∀ k < position, ∀ w, values[k]? = some w → s.equal? w v = some false

/-- The value at this position unfolds to another tree than all before it. -/
def Foremost (s : Store) (values : List Value) (w : Value) (position : Nat) : Prop :=
  values[position]? = some w ∧
    ∀ k < position, ∀ u, values[k]? = some u → ¬ s.SameUnfolding u w

/-- The entries are those of the foremost values. -/
def Entered (s : Store) (past : List Value) (table : List (Value × Nat)) : Prop :=
  ∀ w i, (w, i) ∈ table ↔ s.Foremost past w i

variable {past : List Value} {table : List (Value × Nat)}

private theorem Entered.keyable (h : s.Entered past table) (hpast : ∀ v ∈ past, s.Keyable v) :
    ∀ entry ∈ table, s.Keyable entry.1 := by
  rintro ⟨w, i⟩ hmem
  exact hpast w (List.mem_of_getElem? ((h w i).mp hmem).1)

theorem Entered.exists_entry (h : s.Entered past table) {k : Nat} (hk : past[k]? = some w)
    (hsame : s.SameUnfolding w v) :
    ∃ u i, (u, i) ∈ table ∧ s.SameUnfolding u v := by
  induction k using Nat.strongRecOn generalizing w with
  | _ k ih =>
    by_cases hfirst : ∃ j < k, ∃ u, past[j]? = some u ∧ s.SameUnfolding u v
    · obtain ⟨j, hj, u, hu, husame⟩ := hfirst
      exact ih j hj hu husame
    · refine ⟨w, k, (h w k).mpr ⟨hk, ?_⟩, hsame⟩
      intro j hj u hu husame
      exact hfirst ⟨j, hj, u, hu, husame.trans hsame⟩

private theorem Entered.firstEqual (h : s.Entered past table) (hpast : ∀ v ∈ past, s.Keyable v)
    (hv : s.Keyable v) {i : Nat} (hmem : (w, i) ∈ table) (hequal : s.equal? w v = some true) :
    s.FirstEqual past v i := by
  obtain ⟨hi, hfirst⟩ := (h w i).mp hmem
  have hw : s.Keyable w := hpast w (List.mem_of_getElem? hi)
  rw [hw.equal?_eq_true_iff hv] at hequal
  refine ⟨⟨w, hi, (hw.equal?_eq_true_iff hv).mpr hequal⟩, ?_⟩
  intro k hk u hu
  rw [(hpast u (List.mem_of_getElem? hu)).equal?_eq_false_iff hv]
  intro husame
  exact hfirst k hk u hu (husame.trans hequal.symm)

private theorem FirstEqual.append {i : Nat} (h : s.FirstEqual past v i) (more : List Value) :
    s.FirstEqual (past ++ more) v i := by
  obtain ⟨⟨w, hw, hequal⟩, hbefore⟩ := h
  have hi : i < past.length := (List.getElem?_eq_some_iff.mp hw).1
  refine ⟨⟨w, by rwa [List.getElem?_append_left hi], hequal⟩, ?_⟩
  intro k hk u hu
  rw [List.getElem?_append_left (by omega)] at hu
  exact hbefore k hk u hu

private theorem firstEqual_of_new (hpast : ∀ w ∈ past, s.Keyable w) (hv : s.Keyable v)
    (hnew : ∀ w ∈ past, ¬ s.SameUnfolding w v) (more : List Value) :
    s.FirstEqual (past ++ v :: more) v past.length := by
  refine ⟨⟨v, by simp, (hv.equal?_eq_true_iff hv).mpr (s.sameUnfolding_refl v)⟩, ?_⟩
  intro k hk w hw
  rw [List.getElem?_append_left hk] at hw
  have hmem := List.mem_of_getElem? hw
  exact ((hpast w hmem).equal?_eq_false_iff hv).mpr (hnew w hmem)

private theorem foremost_concat {i : Nat} :
    s.Foremost (past ++ [v]) w i ↔
      s.Foremost past w i ∨ (i = past.length ∧ w = v ∧ ∀ u ∈ past, ¬ s.SameUnfolding u v) := by
  have hbefore {k : Nat} (hk : k < past.length) : (past ++ [v])[k]? = past[k]? :=
    List.getElem?_append_left hk
  unfold Foremost
  rcases Nat.lt_trichotomy i past.length with hlt | rfl | hgt
  · rw [hbefore hlt, or_iff_left fun h => Nat.ne_of_lt hlt h.1]
    refine and_congr_right fun _ => forall_congr' fun k => ?_
    refine imp_congr_right fun hk => ?_
    rw [hbefore (Nat.lt_trans hk hlt)]
  · simp only [List.getElem?_concat_length, List.getElem?_length, reduceCtorEq, false_and, false_or,
      true_and, Option.some.injEq]
    constructor
    · rintro ⟨rfl, hfirst⟩
      refine ⟨rfl, fun u hu => ?_⟩
      obtain ⟨k, hk, hget⟩ := List.getElem_of_mem hu
      exact hfirst k hk u (by rw [hbefore hk, List.getElem?_eq_some_iff]; exact ⟨hk, hget⟩)
    · rintro ⟨rfl, hnew⟩
      refine ⟨rfl, fun k hk u hu => ?_⟩
      rw [hbefore hk] at hu
      exact hnew u (List.mem_of_getElem? hu)
  · have hnone : past[i]? = none := List.getElem?_eq_none (Nat.le_of_lt hgt)
    have hnone' : (past ++ [v])[i]? = none :=
      List.getElem?_eq_none (by rw [List.length_append]; exact hgt)
    simp [hnone, hnone', Nat.ne_of_gt hgt]

private theorem Entered.nil (s : Store) : s.Entered [] [] := by
  intro w i
  simp [Foremost]

theorem Entered.skip (h : s.Entered past table) (hw : w ∈ past) (hsame : s.SameUnfolding w v) :
    s.Entered (past ++ [v]) table := by
  intro u i
  rw [h u i, foremost_concat, or_iff_left fun hnew => hnew.2.2 w hw hsame]

theorem Entered.enter (h : s.Entered past table) (hnew : ∀ w ∈ past, ¬ s.SameUnfolding w v) :
    s.Entered (past ++ [v]) ((v, past.length) :: table) := by
  intro u i
  rw [List.mem_cons, Prod.mk.injEq, h u i, foremost_concat, or_comm]
  refine or_congr_right ⟨fun heq => ⟨heq.2, heq.1, hnew⟩, fun heq => ⟨heq.2.1, heq.1⟩⟩

/-- A search among the entries with the same hash finds the entry of the first equal value, if one
is equal at all. -/
theorem HashSearch.find_cases {κ : Type} {hash : List Mark → κ}
    {find : List (Value × Nat) → Value → Option Nat} (hfind : s.HashSearch hash find)
    (h : s.Entered past table) (hpast : ∀ w ∈ past, s.Keyable w) (hv : s.Keyable v) :
    (∃ i, find table v = some i ∧ s.FirstEqual past v i) ∨
      find table v = none ∧ ∀ w ∈ past, ¬ s.SameUnfolding w v := by
  have htable := h.keyable hpast
  cases hresult : find table v with
  | some i =>
    obtain ⟨w, hmem, hequal⟩ := hfind.found htable hv hresult
    exact .inl ⟨i, rfl, h.firstEqual hpast hv hmem hequal⟩
  | none =>
    refine .inr ⟨rfl, fun w hw hsame => ?_⟩
    obtain ⟨k, hk⟩ := List.mem_iff_getElem?.mp hw
    obtain ⟨u, i, hmem, husame⟩ := h.exists_entry hk hsame
    -- equal values have the same digest, so the search looked at this entry
    have hu : s.Keyable u := htable _ hmem
    have hdigest := (hu.digest?_eq_iff hv).mpr husame
    have hdiffers := hfind.missed htable hv hresult u i hmem (by rw [hdigest])
    exact (hu.equal?_eq_false_iff hv).mp hdiffers husame

theorem HashSearch.enterAll_firstEqual {κ : Type} {hash : List Mark → κ}
    {find : List (Value × Nat) → Value → Option Nat} (hfind : s.HashSearch hash find)
    (h : s.Entered past table) (hpast : ∀ w ∈ past, s.Keyable w) {values : List Value}
    (hvalues : ∀ w ∈ values, s.Keyable w) :
    List.Forall₂ (s.FirstEqual (past ++ values)) values
      (enterAll find table past.length values) := by
  induction values generalizing past table with
  | nil => exact .nil
  | cons v values ih =>
    have hv : s.Keyable v := hvalues v List.mem_cons_self
    have hrest : ∀ w ∈ values, s.Keyable w := fun w hw => hvalues w (List.mem_cons_of_mem _ hw)
    have hpast' : ∀ w ∈ past ++ [v], s.Keyable w := by
      intro w hw
      rcases List.mem_append.mp hw with hw | hw
      · exact hpast w hw
      · exact List.mem_singleton.mp hw ▸ hv
    have hsplit : past ++ v :: values = (past ++ [v]) ++ values := by simp
    have hlength : (past ++ [v]).length = past.length + 1 := List.length_append
    rw [enterAll]
    rcases hfind.find_cases h hpast hv with ⟨i, hresult, hfirst⟩ | ⟨hresult, hnew⟩
    · obtain ⟨w, hw, hequal⟩ := hfirst.1
      have hmem := List.mem_of_getElem? hw
      have hsame := ((hpast w hmem).equal?_eq_true_iff hv).mp hequal
      rw [hresult]
      refine .cons (hfirst.append _) ?_
      rw [hsplit, ← hlength]
      exact ih (h.skip hmem hsame) hpast' hrest
    · rw [hresult]
      refine .cons (firstEqual_of_new hpast hv hnew values) ?_
      rw [hsplit, ← hlength]
      exact ih (h.enter hnew) hpast' hrest

def findHashed {κ : Type} [DecidableEq κ] (s : Store) (hash : List Mark → κ)
    (table : List (Value × Nat)) (v : Value) : Option Nat :=
  (table.find? fun entry =>
    (s.digest? entry.1).map hash = (s.digest? v).map hash ∧ s.equal? entry.1 v = some true).map (·.2)

private theorem hashSearch_findHashed {κ : Type} [DecidableEq κ] (s : Store)
    (hash : List Mark → κ) :
    s.HashSearch hash (s.findHashed hash) where
  found := by
    intro table v i _ _ hfound
    obtain ⟨⟨w, j⟩, hfind, rfl⟩ := Option.map_eq_some_iff.mp hfound
    have hw := List.find?_some hfind
    simp only [Bool.decide_and, Bool.and_eq_true, decide_eq_true_eq] at hw
    exact ⟨w, List.mem_of_find?_eq_some hfind, hw.2⟩
  missed := by
    intro table v htable hv hmissed w i hmem hhash
    have hne := List.find?_eq_none.mp (Option.map_eq_none_iff.mp hmissed) (w, i) hmem
    rw [decide_eq_true_eq] at hne
    rw [(htable _ hmem).equal?_eq_false_iff hv, ← (htable _ hmem).equal?_eq_true_iff hv]
    exact fun hequal => hne ⟨hhash, hequal⟩

def keyed (s : Store) (entry : Value × Nat) : Keyed :=
  ⟨(s.digest? entry.1).getD [], entry.1, entry.2⟩

/-- Comparing whole digests is hashing with the digest itself for the hash. -/
theorem findKeyed_eq (htable : ∀ entry ∈ table, s.Keyable entry.1) (hv : s.Keyable v)
    {digest : List Mark} (hdigest : s.digest? v = some digest) :
    s.findKeyed digest v (table.map s.keyed) = some (s.findHashed id table v) := by
  induction table with
  | nil => rfl
  | cons entry table ih =>
    obtain ⟨hentry, htable⟩ := List.forall_mem_cons.mp htable
    have hrest := ih htable
    obtain ⟨digest', hdigest', -⟩ := hentry.exists_digest
    obtain ⟨answer, hanswer, -⟩ := equal?_decides hentry.holds hv.holds (.inl hentry.acyclic)
    have hkeyed : s.keyed entry = ⟨digest', entry.1, entry.2⟩ := by simp [keyed, hdigest']
    rw [findHashed, hdigest] at hrest
    rw [List.map_cons, hkeyed, findKeyed, findHashed, List.find?_cons, hdigest, hdigest', hanswer]
    by_cases hsame : digest' = digest
    · cases answer with
      | true => simp [hsame]
      | false => simpa [hsame] using hrest
    · simpa [hsame] using hrest

private theorem firstPositions_eq (htable : ∀ entry ∈ table, s.Keyable entry.1)
    {values : List Value} (hvalues : ∀ v ∈ values, s.Keyable v) (position : Nat) :
    s.firstPositions (table.map s.keyed) position values =
      some (enterAll (s.findHashed id) table position values) := by
  induction values generalizing table position with
  | nil => rfl
  | cons v values ih =>
    obtain ⟨hv, hrest⟩ := List.forall_mem_cons.mp hvalues
    obtain ⟨digest, hdigest, -⟩ := hv.exists_digest
    rw [firstPositions, hdigest, enterAll]
    dsimp only
    rw [findKeyed_eq htable hv hdigest]
    cases s.findHashed id table v with
    | some found => simp [ih htable hrest]
    | none =>
      have hentered : ∀ entry ∈ (v, position) :: table, s.Keyable entry.1 :=
        List.forall_mem_cons.mpr ⟨hv, htable⟩
      have hkeyed : s.keyed (v, position) = ⟨digest, v, position⟩ := by simp [keyed, hdigest]
      have htail := ih hentered hrest (position + 1)
      rw [List.map_cons, hkeyed] at htail
      simp [htail]

/-- Hashing respects equality. A value on no circle has a digest, wherever the bound on its depth is
set beyond the number of pairs, and two such values have the same digest exactly if they are equal,
however their pairs are shared. So a table keyed by values, whatever hash it computes from digests and
although it looks for a value only where the hash is the same, finds for each value of a list the
position of the first one that equals it. -/
theorem hashing_respects_equality (s : Store) :
    (∀ a b, s.Holds a → s.Acyclic a → s.Holds b → s.Acyclic b →
      ∃ digest, (∀ room, s.cells.size ≤ room → digestAll s [] [(a, room)] = some digest) ∧
        s.digest? a = some digest ∧
        (s.equal? a b = some true ↔ s.digest? b = some digest)) ∧
    (∀ values, (∀ v ∈ values, s.Holds v ∧ s.Acyclic v) →
      (∃ positions, s.dedupe values = some positions ∧
        List.Forall₂ (s.FirstEqual values) values positions) ∧
      ∀ (κ : Type) (hash : List Mark → κ) (find : List (Value × Nat) → Value → Option Nat),
        s.HashSearch hash find →
          List.Forall₂ (s.FirstEqual values) values (enterAll find [] 0 values)) := by
  refine ⟨?_, ?_⟩
  · intro a b ha hacyclic hb hacyclic'
    have hkey : s.Keyable a := ⟨ha, hacyclic⟩
    have hkey' : s.Keyable b := ⟨hb, hacyclic'⟩
    obtain ⟨digest, hdigest, hroom⟩ := hkey.exists_digest
    refine ⟨digest, hroom, hdigest, ?_⟩
    rw [hkey.equal?_eq_true_iff hkey', ← hkey.digest?_eq_iff hkey', hdigest, eq_comm]
  · intro values hvalues
    have hkeys : ∀ v ∈ values, s.Keyable v := fun v hv => ⟨(hvalues v hv).1, (hvalues v hv).2⟩
    have hlaw {κ : Type} {hash : List Mark → κ}
        {find : List (Value × Nat) → Value → Option Nat} (hfind : s.HashSearch hash find) :
        List.Forall₂ (s.FirstEqual values) values (enterAll find [] 0 values) :=
      hfind.enterAll_firstEqual (.nil s) (by simp) hkeys
    have hempty : ∀ entry ∈ ([] : List (Value × Nat)), s.Keyable entry.1 := by simp
    refine ⟨⟨_, firstPositions_eq hempty hkeys 0, ?_⟩, fun κ hash find hfind => hlaw hfind⟩
    exact hlaw (s.hashSearch_findHashed id)

/-- The two lists of ones share their second pair, so they have the same digest and the second is found
under the first. So it is with a hash that only counts the marks. -/
theorem ones_deduped :
    let values : List Value := [.int 1, .pair ⟨0⟩, .pair ⟨2⟩, .pair ⟨1⟩, .int 1]
    (∀ v ∈ values, ones.Holds v ∧ ones.Acyclic v) ∧
      ones.equal? (.pair ⟨0⟩) (.pair ⟨2⟩) = some true ∧
      ones.digest? (.pair ⟨2⟩) = ones.digest? (.pair ⟨0⟩) ∧
      ones.dedupe values = some [0, 1, 1, 3, 0] ∧
      List.Forall₂ (ones.FirstEqual values) values
        (enterAll (ones.findHashed List.length) [] 0 values) := by
  intro values
  have hkey {v : Value} {t : Tree} (h : ones.Unfolds v t) : ones.Holds v ∧ ones.Acyclic v :=
    ⟨h.holds, h.acyclic⟩
  have hvalues : ∀ v ∈ values, ones.Holds v ∧ ones.Acyclic v := by
    simp only [values, List.forall_mem_cons, List.not_mem_nil, false_imp_iff, implies_true, and_true]
    exact ⟨hkey (.atom _ rfl), hkey (.pair ⟨0⟩ (by decide) (.atom _ rfl) unfolds_ones_end),
      hkey (.pair ⟨2⟩ (by decide) (.atom _ rfl) unfolds_ones_end), hkey unfolds_ones_end,
      hkey (.atom _ rfl)⟩
  have hequal : ones.equal? (.pair ⟨0⟩) (.pair ⟨2⟩) = some true := by decide +kernel
  obtain ⟨hdigests, htables⟩ := hashing_respects_equality ones
  have hfirst := hvalues (.pair ⟨0⟩) (by simp [values])
  have hsecond := hvalues (.pair ⟨2⟩) (by simp [values])
  obtain ⟨digest, -, hdigest, hiff⟩ := hdigests _ _ hfirst.1 hfirst.2 hsecond.1 hsecond.2
  refine ⟨hvalues, hequal, (hiff.mp hequal).trans hdigest.symm, by decide +kernel, ?_⟩
  exact (htables values hvalues).2 Nat List.length _ (ones.hashSearch_findHashed List.length)

end Store
end MiniScheme
