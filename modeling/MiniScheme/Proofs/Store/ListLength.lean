import Mathlib.Data.Fintype.Pigeonhole
import MiniScheme.Procedures.Arguments
import MiniScheme.Proofs.Store.Tree
/-! # Proper lists

Following the rest slots from a value leads to the empty list, to another atom, or round and round,
as there are finitely many pairs. The two runners of `listLength` tell these apart on every store:
behind an end at distance `n` they have stopped after `n / 2` strides, and on a circle they meet
where the number of strides is a multiple of its length, before either of them has passed more pairs
than there are. So the bound on their strides is never used up.
-/
namespace MiniScheme

namespace Store

variable {s : Store} {v slow fast last : Value} {n : Nat}

/-- The value behind `n` pairs along the rest slots, if there are as many. -/
def tailAfter (s : Store) : (n : Nat) → Value → Option Value
  | 0, v => some v
  | n + 1, .pair c => s.tailAfter n (s.rest c)
  | _ + 1, _ => none

/-- Behind `n` pairs comes `last`, which is none. -/
def EndsAfter (s : Store) (v : Value) (n : Nat) (last : Value) : Prop :=
  s.tailAfter n v = some last ∧ last.isPair = false

/-- The list ends, but not in the empty list. -/
def EndsImproperly (s : Store) (v : Value) : Prop :=
  ∃ n last, s.EndsAfter v n last ∧ last ≠ .nil

/-- Behind some pairs comes a circle of one or more. -/
def GoesRound (s : Store) (v : Value) : Prop :=
  ∃ before round c, 0 < round ∧ s.tailAfter before v = some (.pair c) ∧
    s.tailAfter (before + round) v = some (.pair c)

private theorem tailAfter_succ (hv : v.isPair = false) (n : Nat) :
    s.tailAfter (n + 1) v = none := by
  cases v <;> simp_all [tailAfter, Value.isPair]

theorem tailAfter_succ_eq_some {w : Value} (h : s.tailAfter (n + 1) v = some w) :
    ∃ c, v = .pair c ∧ s.tailAfter n (s.rest c) = some w := by
  cases hv : v.isPair with
  | false => simp [tailAfter_succ hv] at h
  | true =>
    obtain ⟨c, rfl⟩ := Value.isPair_eq_true_iff.mp hv
    exact ⟨c, rfl, h⟩

theorem tailAfter_add (m n : Nat) (v : Value) :
    s.tailAfter (m + n) v = (s.tailAfter m v).bind (s.tailAfter n) := by
  induction m generalizing v with
  | zero => simp [tailAfter]
  | succ m ih =>
    rw [Nat.succ_add]
    cases hv : v.isPair with
    | false => simp [tailAfter_succ hv]
    | true =>
      obtain ⟨c, rfl⟩ := Value.isPair_eq_true_iff.mp hv
      exact ih _

theorem tailAfter_next {c : CellId} (h : s.tailAfter n v = some (.pair c)) :
    s.tailAfter (n + 1) v = some (s.rest c) := by
  rw [tailAfter_add, h]
  rfl

theorem reaches_of_tailAfter {c : CellId} (h : s.tailAfter n v = some (.pair c)) :
    s.Reaches v c := by
  induction n generalizing v with
  | zero =>
    obtain rfl := Option.some.inj h
    exact .here c
  | succ n ih =>
    obtain ⟨d, rfl, hrest⟩ := tailAfter_succ_eq_some h
    exact .rest (ih hrest)

theorem pair_or_ends (s : Store) (v : Value) (n : Nat) :
    (∃ c, s.tailAfter n v = some (.pair c)) ∨ ∃ m ≤ n, ∃ last, s.EndsAfter v m last := by
  induction n with
  | zero =>
    cases hv : v.isPair with
    | false => exact .inr ⟨0, Nat.le_refl _, v, rfl, hv⟩
    | true =>
      obtain ⟨c, rfl⟩ := Value.isPair_eq_true_iff.mp hv
      exact .inl ⟨c, rfl⟩
  | succ n ih =>
    rcases ih with ⟨c, hc⟩ | ⟨m, hm, last, hends⟩
    · have hnext := tailAfter_next hc
      cases hrest : (s.rest c).isPair with
      | false => exact .inr ⟨n + 1, Nat.le_refl _, s.rest c, hnext, hrest⟩
      | true =>
        obtain ⟨d, hd⟩ := Value.isPair_eq_true_iff.mp hrest
        exact .inl ⟨d, hd ▸ hnext⟩
    · exact .inr ⟨m, by omega, last, hends⟩

private theorem EndsAfter.none_behind (h : s.EndsAfter v n last) {m : Nat} (hm : n < m) :
    s.tailAfter m v = none := by
  obtain ⟨k, rfl⟩ := Nat.exists_eq_add_of_lt hm
  rw [Nat.add_assoc, tailAfter_add, h.1]
  exact tailAfter_succ h.2 k

theorem EndsAfter.unique {m : Nat} {other : Value} (h : s.EndsAfter v n last)
    (h' : s.EndsAfter v m other) : m = n ∧ other = last := by
  have hmn : m = n := by
    rcases Nat.lt_trichotomy m n with hlt | heq | hlt
    · simpa [h.1] using h'.none_behind hlt
    · exact heq
    · simpa [h'.1] using h.none_behind hlt
  subst hmn
  exact ⟨rfl, Option.some.inj (h'.1.symm.trans h.1)⟩

theorem tailAfter_repeats {before round : Nat} (h : s.tailAfter (before + round) v =
    s.tailAfter before v) (hn : before ≤ n) (k : Nat) :
    s.tailAfter (n + round * k) v = s.tailAfter n v := by
  induction k with
  | zero => simp
  | succ k ih =>
    obtain ⟨m, hm⟩ := Nat.exists_eq_add_of_le (show before ≤ n + round * k by omega)
    calc s.tailAfter (n + round * (k + 1)) v
        = s.tailAfter (before + round + m) v := by
          congr 1
          rw [Nat.mul_succ]
          omega
      _ = s.tailAfter (before + m) v := by rw [tailAfter_add, h, ← tailAfter_add]
      _ = s.tailAfter n v := by rw [← hm, ih]

theorem GoesRound.pair (h : s.GoesRound v) (n : Nat) : ∃ c, s.tailAfter n v = some (.pair c) := by
  obtain ⟨before, round, c, hround, hc, hagain⟩ := h
  rcases s.pair_or_ends v n with hpair | ⟨m, -, last, hends⟩
  · exact hpair
  · have hrepeats := tailAfter_repeats (hagain.trans hc.symm) (Nat.le_refl before) (m + 1)
    have hbehind : m < before + round * (m + 1) :=
      calc m < 1 * (m + 1) := by omega
        _ ≤ round * (m + 1) := Nat.mul_le_mul_right _ hround
        _ ≤ before + round * (m + 1) := Nat.le_add_left _ _
    rw [hends.none_behind hbehind, hc] at hrepeats
    simp at hrepeats

theorem exists_round (hv : s.Holds v) (h : ∃ c, s.tailAfter s.cells.size v = some (.pair c)) :
    ∃ before round c, 0 < round ∧ before + round ≤ s.cells.size ∧
      s.tailAfter before v = some (.pair c) ∧ s.tailAfter (before + round) v = some (.pair c) := by
  have hpair (k : Fin (s.cells.size + 1)) : ∃ c, s.tailAfter k v = some (.pair c) := by
    rcases s.pair_or_ends v k with hpair | ⟨m, hm, last, hends⟩
    · exact hpair
    · obtain ⟨c, hc⟩ := h
      rcases Nat.lt_or_eq_of_le (Nat.le_of_lt_succ (Nat.lt_of_le_of_lt hm k.isLt)) with hlt | heq
      · simp [hends.none_behind hlt] at hc
      · have hlast := hends.2
        rw [← heq, hends.1] at hc
        rw [Option.some.inj hc] at hlast
        simp [Value.isPair] at hlast
  choose cell hcell using hpair
  obtain ⟨i, j, hne, heq⟩ := Fintype.exists_ne_map_eq_of_card_lt
    (fun k => (⟨(cell k).index, hv _ (reaches_of_tailAfter (hcell k))⟩ : Fin s.cells.size))
    (by simp)
  have hsame : cell i = cell j := congrArg CellId.mk (Fin.mk.inj_iff.mp heq)
  have of_lt (i j : Fin (s.cells.size + 1)) (hlt : i < j) (hsame : cell i = cell j) :
      ∃ before round c, 0 < round ∧ before + round ≤ s.cells.size ∧
        s.tailAfter before v = some (.pair c) ∧
          s.tailAfter (before + round) v = some (.pair c) := by
    have hlt' : i.val < j.val := hlt
    refine ⟨i, j - i, cell i, by omega, by omega, hcell i, ?_⟩
    rw [Nat.add_sub_cancel' (Nat.le_of_lt hlt'), hcell j, hsame]
  rcases Nat.lt_or_gt_of_ne (fun h => hne (Fin.ext h)) with hlt | hlt
  · exact of_lt i j hlt hsame
  · exact of_lt j i hlt hsame.symm

/-- A list ends within as many pairs as there are, or goes round within them. -/
theorem ends_or_round (hv : s.Holds v) :
    (∃ n ≤ s.cells.size, ∃ last, s.EndsAfter v n last) ∨
    ∃ before round c, 0 < round ∧ before + round ≤ s.cells.size ∧
      s.tailAfter before v = some (.pair c) ∧ s.tailAfter (before + round) v = some (.pair c) :=
  (s.pair_or_ends v s.cells.size).symm.imp id (exists_round hv)

/-! The two runners. -/

inductive Stride where
  /-- The runners stop: the length is known, or there is none. -/
  | stopped (length : Option Nat)
  /-- They go on from here. -/
  | running (length : Nat) (slow fast : Value)

/-- One stride: two pairs for `fast`, one for `slow`. -/
def stride (s : Store) (length : Nat) (slow fast : Value) : Stride :=
  match fast with
  | .nil => .stopped (some length)
  | .pair c =>
    match s.rest c with
    | .nil => .stopped (some (length + 1))
    | .pair c' =>
      match slow with
      | .pair d =>
        if (s.rest d).isPair && (s.rest d).same (s.rest c') then .stopped none
        else .running (length + 2) (s.rest d) (s.rest c')
      | _ => .stopped none
    | _ => .stopped none
  | _ => .stopped none

/-- Strides until the runners stop; `none` if they are still running after so many. -/
def race (s : Store) : (strides length : Nat) → (slow fast : Value) → Option (Option Nat)
  | 0, _, _, _ => none
  | strides + 1, length, slow, fast =>
    match s.stride length slow fast with
    | .stopped answer => some answer
    | .running length slow fast => s.race strides length slow fast

private theorem lengthWithin_eq_join_race (strides length : Nat) (slow fast : Value) :
    s.lengthWithin strides length slow fast = (s.race strides length slow fast).join := by
  induction strides generalizing length slow fast with
  | zero => rfl
  | succ strides ih =>
    unfold lengthWithin race stride
    cases fast with
    | pair c =>
      dsimp only
      cases s.rest c with
      | pair c' =>
        cases slow with
        | pair d =>
          dsimp only
          split
          · rfl
          · exact ih _ _ _
        | _ => rfl
      | _ => rfl
    | _ => rfl

theorem race_succ {c c' d : CellId} (hc : s.rest c = .pair c') (strides length : Nat) :
    s.race (strides + 1) length (.pair d) (.pair c) =
      if (s.rest d).isPair && (s.rest d).same (s.rest c') then some none
      else s.race strides (length + 2) (s.rest d) (s.rest c') := by
  rw [race, stride]
  dsimp only
  rw [hc]
  dsimp only
  split
  · next h =>
    split at h
    · next hmeet => rw [if_pos hmeet, Stride.stopped.inj h]
    · simp at h
  · next h =>
    split at h
    · simp at h
    · next hmeet =>
      obtain ⟨rfl, rfl, rfl⟩ := Stride.running.inj h
      rw [if_neg hmeet]

/-- Runners with an end before them stop there. The slow one stays behind, so they do not meet. -/
theorem race_of_endsAfter {strides d : Nat} (hslow : s.tailAfter d slow = some fast)
    (hfast : s.EndsAfter fast n last) (hstrides : n < 2 * strides) (length : Nat) :
    s.race strides length slow fast =
      some (if last.isNull then some (length + n) else none) := by
  induction strides generalizing n d slow fast length with
  | zero => omega
  | succ strides ih =>
    obtain ⟨hlast, hatom⟩ := hfast
    match n with
    | 0 =>
      obtain rfl := Option.some.inj hlast
      cases fast <;> simp_all [race, stride, Value.isPair, Value.isNull]
    | 1 =>
      obtain ⟨c, rfl, hrest⟩ := tailAfter_succ_eq_some hlast
      obtain rfl := Option.some.inj hrest
      rw [race, stride]
      generalize s.rest c = last at hatom ⊢
      cases last <;> simp_all [Value.isPair, Value.isNull]
    | n + 2 =>
      obtain ⟨c, rfl, hbehind⟩ := tailAfter_succ_eq_some hlast
      obtain ⟨c', hc, hbehind⟩ := tailAfter_succ_eq_some hbehind
      obtain ⟨e, rfl, hnext⟩ := tailAfter_succ_eq_some (tailAfter_next hslow)
      rw [hc] at hnext
      have hslow' : s.tailAfter (d + 1) (s.rest e) = some (s.rest c') := tailAfter_next hnext
      have hfast' : s.EndsAfter (s.rest c') n last := ⟨hbehind, hatom⟩
      have hapart : ¬ ((s.rest e).isPair && (s.rest e).same (s.rest c')) = true := by
        intro hmeet
        have hends : s.EndsAfter (s.rest e) (d + 1 + n) last := by
          refine ⟨?_, hatom⟩
          rw [tailAfter_add, hslow']
          exact hbehind
        obtain ⟨hpair, hsame⟩ := Bool.and_eq_true_iff.mp hmeet
        rw [Value.eq_of_same_of_isPair hpair hsame] at hends
        have hdistance := (hfast'.unique hends).1
        omega
      rw [race_succ hc, if_neg hapart, ih hslow' hfast' (by omega), Nat.add_assoc, Nat.add_comm 2]

theorem race_of_meets (hround : ∀ n, ∃ c, s.tailAfter n v = some (.pair c)) {meet k strides : Nat}
    (hmeet : s.tailAfter (2 * meet) v = s.tailAfter meet v) (hk : k < meet)
    (hstrides : meet ≤ k + strides) (hslow : s.tailAfter k v = some slow)
    (hfast : s.tailAfter (2 * k) v = some fast) (length : Nat) :
    s.race strides length slow fast = some none := by
  induction strides generalizing k slow fast length with
  | zero => omega
  | succ strides ih =>
    obtain ⟨d, hd⟩ := hround k
    obtain ⟨c, hc⟩ := hround (2 * k)
    obtain ⟨c', hc'⟩ := hround (2 * k + 1)
    obtain rfl := Option.some.inj (hd.symm.trans hslow)
    obtain rfl := Option.some.inj (hc.symm.trans hfast)
    have hrest : s.rest c = .pair c' := Option.some.inj ((tailAfter_next hc).symm.trans hc')
    have hslow' := tailAfter_next hd
    have hfast' : s.tailAfter (2 * (k + 1)) v = some (s.rest c') := tailAfter_next hc'
    rw [race_succ hrest]
    split
    · rfl
    · next hapart =>
      apply ih _ (by omega) hslow' hfast'
      -- At the meeting point they would stand on one pair.
      rcases Nat.lt_or_eq_of_le hk with hlt | rfl
      · exact hlt
      · rw [hslow', hfast'] at hmeet
        obtain ⟨e, he⟩ := hround (k + 1)
        rw [hslow'] at he
        rw [Option.some.inj hmeet, Option.some.inj he] at hapart
        simp [Value.isPair] at hapart

/-- Runners meet before they have taken more strides than there are pairs up to the circle and
round it. -/
theorem exists_meeting {before round : Nat} {c : CellId} (hround : 0 < round)
    (hc : s.tailAfter before v = some (.pair c))
    (hagain : s.tailAfter (before + round) v = some (.pair c)) :
    ∃ meet, 0 < meet ∧ meet ≤ before + round ∧
      s.tailAfter (2 * meet) v = s.tailAfter meet v := by
  -- The multiple of the length of the circle that comes next after its beginning.
  let times := before / round + 1
  have hdiv := Nat.div_add_mod before round
  have hmod := Nat.mod_lt before hround
  have hmeet : round * times = round * (before / round) + round := Nat.mul_succ _ _
  refine ⟨round * times, by omega, by omega, ?_⟩
  rw [Nat.two_mul]
  exact tailAfter_repeats (hagain.trans hc.symm) (by omega) times

/-- The runners stop at an end, with the length if it is the empty list, and on a circle. -/
theorem race_stops (hv : s.Holds v) :
    (∃ n ≤ s.cells.size, ∃ last, s.EndsAfter v n last ∧
      s.race (s.cells.size + 1) 0 v v = some (if last.isNull then some n else none)) ∨
    s.GoesRound v ∧ s.race (s.cells.size + 1) 0 v v = some none := by
  rcases ends_or_round hv with ⟨n, hn, last, hends⟩ | ⟨before, round, c, hround, hle, hc, hagain⟩
  · left
    refine ⟨n, hn, last, hends, ?_⟩
    have hstrides : n < 2 * (s.cells.size + 1) := by omega
    simpa using race_of_endsAfter (d := 0) rfl hends hstrides 0
  · right
    have hgoes : s.GoesRound v := ⟨before, round, c, hround, hc, hagain⟩
    obtain ⟨meet, hpos, hmeet_le, hmeet⟩ := exists_meeting hround hc hagain
    exact ⟨hgoes, race_of_meets hgoes.pair hmeet hpos (by omega) rfl rfl 0⟩

open Procedures (listArgument notAList)

/-- The list `items` is what stands in the first slots, in order, before the empty list. -/
def Lists (s : Store) (v : Value) (items : List Value) : Prop :=
  s.tailAfter items.length v = some .nil ∧
    ∀ k < items.length, ∃ c, s.tailAfter k v = some (.pair c) ∧ items[k]? = some (s.first c)

theorem lists_nil_iff : s.Lists v [] ↔ v = .nil := by
  simp [Lists, tailAfter]

theorem lists_cons_iff {item : Value} {items : List Value} :
    s.Lists v (item :: items) ↔
      ∃ c, v = .pair c ∧ s.first c = item ∧ s.Lists (s.rest c) items := by
  constructor
  · rintro ⟨hnil, hitems⟩
    obtain ⟨c, rfl, hrest⟩ := tailAfter_succ_eq_some hnil
    obtain ⟨c', hc', hfirst⟩ := hitems 0 (by simp)
    obtain rfl : c = c' := by simpa [tailAfter] using hc'
    refine ⟨c, rfl, by simpa using hfirst.symm, hrest, ?_⟩
    intro k hk
    exact hitems (k + 1) (by simpa using hk)
  · rintro ⟨c, rfl, rfl, hnil, hitems⟩
    refine ⟨hnil, ?_⟩
    intro k hk
    cases k with
    | zero => exact ⟨c, rfl, rfl⟩
    | succ k => exact hitems k (by simpa using hk)

private theorem Lists.reaches {item : Value} {items : List Value} {d : CellId} (h : s.Lists v items)
    (hitem : item ∈ items) (hd : s.Reaches item d) : s.Reaches v d := by
  induction items generalizing v with
  | nil => simp at hitem
  | cons first items ih =>
    obtain ⟨c, rfl, rfl, hbehind⟩ := lists_cons_iff.mp h
    rcases List.mem_cons.mp hitem with rfl | hitem
    · exact .first hd
    · exact .rest (ih hbehind hitem)

theorem Lists.acyclic {item : Value} {items : List Value} (h : s.Lists v items) (hacyclic : s.Acyclic v)
    (hitem : item ∈ items) : s.Acyclic item :=
  hacyclic.of_reaches fun _ hd => h.reaches hitem hd

theorem Lists.holds {item : Value} {items : List Value} (h : s.Lists v items) (hholds : s.Holds v)
    (hitem : item ∈ items) : s.Holds item :=
  hholds.of_reaches fun _ hd => h.reaches hitem hd

theorem spineWithin_of_lists {items : List Value} {steps : Nat}
    (h : s.Lists v items) (hsteps : items.length < steps) (reversed : List Value) :
    s.spineWithin steps reversed v = .proper (reversed.reverse ++ items) := by
  induction items generalizing v steps reversed with
  | nil =>
    obtain rfl := lists_nil_iff.mp h
    obtain ⟨steps, rfl⟩ := Nat.exists_eq_add_of_lt hsteps
    simp [spineWithin]
  | cons item items ih =>
    obtain ⟨c, rfl, rfl, hbehind⟩ := lists_cons_iff.mp h
    obtain ⟨steps, rfl⟩ : ∃ k, steps = k + 1 := ⟨steps - 1, by omega⟩
    rw [spineWithin, ih hbehind (by simpa using hsteps)]
    simp

theorem spineWithin_of_proper {steps : Nat} (h : s.tailAfter n v = some .nil) (hsteps : n < steps)
    (reversed : List Value) :
    ∃ items, s.spineWithin steps reversed v = .proper (reversed.reverse ++ items) ∧
      items.length = n ∧ s.Lists v items := by
  induction n generalizing v steps reversed with
  | zero =>
    obtain ⟨steps, rfl⟩ := Nat.exists_eq_add_of_lt hsteps
    obtain rfl := Option.some.inj h
    exact ⟨[], by simp [spineWithin], rfl, rfl, by simp⟩
  | succ n ih =>
    obtain ⟨steps, rfl⟩ : ∃ k, steps = k + 1 := ⟨steps - 1, by omega⟩
    obtain ⟨c, rfl, hrest⟩ := tailAfter_succ_eq_some h
    obtain ⟨items, hspine, hlength, hnil, hitems⟩ :=
      ih hrest (Nat.lt_of_succ_lt_succ hsteps) (s.first c :: reversed)
    refine ⟨s.first c :: items, ?_, by simp [hlength], hnil, ?_⟩
    · rw [spineWithin, hspine]
      simp
    · intro k hk
      cases k with
      | zero => exact ⟨c, rfl, rfl⟩
      | succ k => exact hitems k (Nat.lt_of_succ_lt_succ hk)

theorem not_proper (h : s.EndsImproperly v ∨ s.GoesRound v) (n : Nat) :
    s.tailAfter n v ≠ some .nil := by
  intro hnil
  rcases h with ⟨m, last, hends, hne⟩ | hround
  · have hproper : s.EndsAfter v n .nil := ⟨hnil, rfl⟩
    exact hne (hproper.unique hends).2
  · obtain ⟨c, hc⟩ := hround.pair n
    simp [hnil] at hc

theorem listLength_cases (hv : s.Holds v) :
    (∃ items, s.Lists v items ∧ s.listLength v = some items.length ∧
      s.spine v = .proper items) ∨
    (s.EndsImproperly v ∨ s.GoesRound v) ∧ s.listLength v = none := by
  have hlength : s.listLength v = (s.race (s.cells.size + 1) 0 v v).join :=
    lengthWithin_eq_join_race _ _ _ _
  rcases race_stops hv with ⟨n, hn, last, hends, hrace⟩ | ⟨hround, hrace⟩
  · rw [hrace] at hlength
    by_cases hnil : last = .nil
    · subst hnil
      obtain ⟨items, hspine, rfl, hlists⟩ :=
        spineWithin_of_proper hends.1 (Nat.lt_succ_of_le hn) []
      exact .inl ⟨items, hlists, hlength, hspine⟩
    · have hnull : last.isNull = false := by cases last <;> simp_all [Value.isNull]
      rw [hnull] at hlength
      exact .inr ⟨.inl ⟨n, last, hends, hnil⟩, hlength⟩
  · rw [hrace] at hlength
    exact .inr ⟨.inr hround, hlength⟩

theorem Lists.unique {items items' : List Value} (h : s.Lists v items) (h' : s.Lists v items') :
    items' = items := by
  induction items generalizing v items' with
  | nil =>
    obtain rfl := lists_nil_iff.mp h
    cases items' with
    | nil => rfl
    | cons item items' => simp [lists_cons_iff] at h'
  | cons item items ih =>
    obtain ⟨c, rfl, rfl, hbehind⟩ := lists_cons_iff.mp h
    cases items' with
    | nil => simp [lists_nil_iff] at h'
    | cons item' items' =>
      obtain ⟨c', hc, rfl, hbehind'⟩ := lists_cons_iff.mp h'
      obtain rfl := Value.pair.inj hc
      rw [ih hbehind hbehind']

theorem listArgument_of_lists {items : List Value} (hv : s.Holds v) (h : s.Lists v items)
    (name : String) : listArgument s name v = .ok items := by
  rcases listLength_cases hv with ⟨items', hlists, hlength, hspine⟩ | ⟨hbad, -⟩
  · obtain rfl := h.unique hlists
    simp [listArgument, hlength, hspine]
  · exact absurd h.1 (not_proper hbad _)

theorem listArgument_of_improper (hv : s.Holds v) (h : s.EndsImproperly v ∨ s.GoesRound v)
    (name : String) : listArgument s name v = .error (notAList name v) := by
  rcases listLength_cases hv with ⟨items, hlists, -, -⟩ | ⟨-, hnone⟩
  · exact absurd hlists.1 (not_proper h _)
  · simp [listArgument, hnone]

private theorem race_eq_listLength (hv : s.Holds v) :
    s.race (s.cells.size + 1) 0 v v = some (s.listLength v) := by
  have hlength : s.listLength v = (s.race (s.cells.size + 1) 0 v v).join :=
    lengthWithin_eq_join_race _ _ _ _
  rcases race_stops hv with ⟨n, -, last, -, hrace⟩ | ⟨-, hrace⟩ <;> rw [hlength, hrace] <;> rfl

private theorem listLength_eq_some_iff (hv : s.Holds v) (n : Nat) :
    s.listLength v = some n ↔ s.tailAfter n v = some .nil := by
  rcases listLength_cases hv with ⟨items, hlists, hlength, -⟩ | ⟨hbad, hnone⟩
  · rw [hlength]
    constructor
    · rintro ⟨⟩
      exact hlists.1
    · intro hnil
      have hproper : s.EndsAfter v items.length .nil := ⟨hlists.1, rfl⟩
      exact congrArg some (hproper.unique ⟨hnil, rfl⟩).1.symm
  · simp [hnone, not_proper hbad]

private theorem listLength_eq_none_iff (hv : s.Holds v) :
    s.listLength v = none ↔ s.EndsImproperly v ∨ s.GoesRound v := by
  rcases listLength_cases hv with ⟨items, hlists, hlength, -⟩ | ⟨hbad, hnone⟩
  · rw [hlength]
    constructor
    · simp
    · intro hbad
      exact absurd hlists.1 (not_proper hbad _)
  · simp [hnone, hbad]

private theorem goesRound_iff (hv : s.Holds v) :
    s.GoesRound v ↔ ∀ n, ∃ c, s.tailAfter n v = some (.pair c) := by
  constructor
  · exact GoesRound.pair
  · intro hpair
    obtain ⟨before, round, c, hround, -, hc, hagain⟩ := exists_round hv (hpair _)
    exact ⟨before, round, c, hround, hc, hagain⟩

/-- The runners decide on every store whether a value is a proper list. They stop before they have
used up their strides. The length they find is the distance of the empty list, and they find none if
the list ends in another atom or never ends, which is to say on a circle. A list whose length is
found is followed to that many elements, so that an argument that has to be a list is refused if it
is improper or circular, and else taken apart. -/
theorem proper_lists_are_decided (hv : s.Holds v) :
    s.race (s.cells.size + 1) 0 v v = some (s.listLength v) ∧
    (∀ n, s.listLength v = some n ↔ s.tailAfter n v = some .nil) ∧
    (s.listLength v = none ↔ s.EndsImproperly v ∨ s.GoesRound v) ∧
    (s.GoesRound v ↔ ∀ n, ∃ c, s.tailAfter n v = some (.pair c)) ∧
    (∀ n, s.listLength v = some n → ∃ items, items.length = n ∧ s.Lists v items ∧
      s.spine v = .proper items ∧ ∀ name, listArgument s name v = .ok items) ∧
    ∀ name e, listArgument s name v = .error e ↔
      e = notAList name v ∧ (s.EndsImproperly v ∨ s.GoesRound v) := by
  refine ⟨race_eq_listLength hv, listLength_eq_some_iff hv, listLength_eq_none_iff hv,
    goesRound_iff hv, ?_, ?_⟩
  · intro n hn
    rcases listLength_cases hv with ⟨items, hlists, hlength, hspine⟩ | ⟨-, hnone⟩
    · rw [hlength] at hn
      refine ⟨items, Option.some.inj hn, hlists, hspine, fun name => ?_⟩
      simp [listArgument, hlength, hspine]
    · simp [hnone] at hn
  · intro name e
    rw [← listLength_eq_none_iff hv]
    rcases listLength_cases hv with ⟨items, -, hlength, hspine⟩ | ⟨-, hnone⟩
    · simp [listArgument, hlength, hspine]
    · simp [listArgument, hnone, eq_comm]

/-- Two numbers before a pair that is its own rest, and a list of three. -/
def tailedCircle : Store :=
  ⟨#[⟨.int 1, .pair ⟨1⟩⟩, ⟨.int 2, .pair ⟨2⟩⟩, ⟨.int 3, .pair ⟨2⟩⟩,
    ⟨.int 4, .pair ⟨4⟩⟩, ⟨.int 5, .pair ⟨5⟩⟩, ⟨.int 6, .nil⟩], #[], #[]⟩

/-- The circle of one pair is found, and so is the length of the list beside it. -/
theorem tailedCircle_is_decided :
    (tailedCircle.Holds (.pair ⟨0⟩) ∧ tailedCircle.GoesRound (.pair ⟨0⟩) ∧
      tailedCircle.listLength (.pair ⟨0⟩) = none) ∧
    tailedCircle.Holds (.pair ⟨3⟩) ∧ tailedCircle.listLength (.pair ⟨3⟩) = some 3 ∧
      tailedCircle.Lists (.pair ⟨3⟩) [.int 4, .int 5, .int 6] := by
  have hintact : tailedCircle.Intact := by decide
  have hcircle : tailedCircle.Holds (.pair ⟨0⟩) := hintact.holds (by decide)
  have hlist : tailedCircle.Holds (.pair ⟨3⟩) := hintact.holds (by decide)
  have hround : tailedCircle.GoesRound (.pair ⟨0⟩) := ⟨2, 1, ⟨2⟩, by decide, rfl, rfl⟩
  obtain ⟨-, -, hnone, -⟩ := proper_lists_are_decided hcircle
  obtain ⟨-, hsome, -, -, hitems, -⟩ := proper_lists_are_decided hlist
  have hlength : tailedCircle.listLength (.pair ⟨3⟩) = some 3 := (hsome 3).mpr rfl
  obtain ⟨items, -, hlists, hspine, -⟩ := hitems 3 hlength
  obtain rfl : items = [.int 4, .int 5, .int 6] := Spine.proper.inj (hspine.symm.trans rfl)
  exact ⟨⟨hcircle, hround, hnone.mpr (.inr hround)⟩, hlist, hlength, hlists⟩

end Store
end MiniScheme
