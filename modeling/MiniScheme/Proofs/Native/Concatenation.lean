import MiniScheme.Procedures.Lists
import MiniScheme.Proofs.Store.Equality
import MiniScheme.Proofs.Store.NewPairs
/-! # Lists put together

Appending and reversing copy the lists they are given: the elements of the result are those of the
lists, in new pairs, and no pair that was there before changes. Appending does not copy what comes
last, which need not be a list; it is shared. A value that should be a proper list and is none is
refused before any pair is made. All this is said of lists that may share pairs or contain each other.
-/
namespace MiniScheme

namespace Store

variable {s s' : Store} {v : Value} {items : List Value}

theorem Holds.extend (h : s.Holds v) (hs : s.Extends s') : s'.Holds v := by
  intro c hreach
  suffices hbefore : s.Reaches v c from (hs c (h c hbefore)).1
  induction hreach with
  | here c => exact .here c
  | @first c d _ ih =>
    have hcell := (hs c (h c (.here c))).2
    have hfirst : s'.first c = s.first c := congrArg Cell.first hcell
    rw [hfirst] at ih
    exact .first (ih fun d hd => h d (.first hd))
  | @rest c d _ ih =>
    have hcell := (hs c (h c (.here c))).2
    have hrest : s'.rest c = s.rest c := congrArg Cell.rest hcell
    rw [hrest] at ih
    exact .rest (ih fun d hd => h d (.rest hd))

private theorem Lists.extend (h : s.Lists v items) (hv : s.Holds v) (hs : s.Extends s') :
    s'.Lists v items := by
  induction items generalizing v with
  | nil => exact lists_nil_iff.mpr (lists_nil_iff.mp h)
  | cons item items ih =>
    obtain ⟨c, rfl, rfl, hbehind⟩ := lists_cons_iff.mp h
    have hcell := (hs c (hv c (.here c))).2
    refine lists_cons_iff.mpr ⟨c, rfl, congrArg Cell.first hcell, ?_⟩
    rw [Store.rest, hcell]
    exact ih hbehind (hv.of_reaches fun d hd => .rest hd)

end Store

namespace Equality

variable {s : Store} {a b : Value} {items : List Value}

theorem compareAll_self (s : Store) (v : Value) (room : Nat) (pending : List Pending) :
    compareAll s (⟨v, v, room⟩ :: pending) = compareAll s pending := by
  cases hv : v.isPair with
  | false => exact compareAll_atom hv room pending
  | true =>
    cases v with
    | pair c => cases room <;> rw [compareAll, if_pos rfl]
    | _ => simp [Value.isPair] at hv

/-- Lists of the same elements are not told apart, even if the elements go round in circles. -/
theorem compareAll_lists (ha : s.Lists a items) (hb : s.Lists b items) {room : Nat}
    (hroom : items.length ≤ room) (pending : List Pending) :
    compareAll s (⟨a, b, room⟩ :: pending) = compareAll s pending := by
  induction items generalizing a b room with
  | nil =>
    rw [Store.lists_nil_iff.mp ha, Store.lists_nil_iff.mp hb]
    exact compareAll_self s .nil room pending
  | cons item items ih =>
    obtain ⟨c, rfl, hc, hbehind⟩ := Store.lists_cons_iff.mp ha
    obtain ⟨d, rfl, hd, hbehind'⟩ := Store.lists_cons_iff.mp hb
    rw [List.length_cons] at hroom
    obtain ⟨room, rfl⟩ : ∃ n, room = n + 1 := ⟨room - 1, by omega⟩
    rw [compareAll]
    split
    · rfl
    · rw [hc, hd, compareAll_self, ih hbehind hbehind' (by omega)]

end Equality

namespace Store

variable {s : Store} {a b : Value} {items : List Value}

private theorem Lists.equal? (ha : s.Lists a items) (hb : s.Lists b items)
    (hsize : items.length ≤ s.cells.size) : s.equal? a b = some true := by
  rw [Store.equal?, Equality.compareAll_lists ha hb (Nat.le_trans hsize (Nat.le_mul_self _)),
    Equality.compareAll]

theorem Lists.sameUnfolding (ha : s.Lists a items) (hb : s.Lists b items) :
    s.SameUnfolding a b := by
  induction items generalizing a b with
  | nil =>
    rw [lists_nil_iff.mp ha, lists_nil_iff.mp hb]
    exact s.sameUnfolding_refl .nil
  | cons item items ih =>
    obtain ⟨c, rfl, hc, hbehind⟩ := lists_cons_iff.mp ha
    obtain ⟨d, rfl, hd, hbehind'⟩ := lists_cons_iff.mp hb
    rw [sameUnfolding_pair_iff, hc, hd]
    exact ⟨s.sameUnfolding_refl item, ih hbehind hbehind'⟩

end Store

namespace Procedures

variable {s : Store} {v last : Value} {items : List Value}

def IsProper (s : Store) (v : Value) : Prop := ∃ items, s.Lists v items

private theorem listArgument_cases (hv : s.Holds v) (name : String) :
    (∃ items, s.Lists v items ∧ listArgument s name v = .ok items) ∨
    ¬ IsProper s v ∧ listArgument s name v = .error (notAList name v) := by
  rcases Store.listLength_cases hv with ⟨items, hlists, -, -⟩ | ⟨hbad, -⟩
  · exact .inl ⟨items, hlists, Store.listArgument_of_lists hv hlists name⟩
  · right
    refine ⟨?_, Store.listArgument_of_improper hv hbad name⟩
    rintro ⟨items, hlists⟩
    exact Store.not_proper hbad _ hlists.1

private theorem exists_contents {lists : List Value} (h : ∀ v ∈ lists, IsProper s v) :
    ∃ contents, List.Forall₂ s.Lists lists contents := by
  induction lists with
  | nil => exact ⟨[], .nil⟩
  | cons v lists ih =>
    obtain ⟨⟨items, hitems⟩, hlists⟩ := List.forall_mem_cons.mp h
    obtain ⟨contents, hcontents⟩ := ih hlists
    exact ⟨items :: contents, .cons hitems hcontents⟩

private theorem concatenation_of_lists {lists : List Value} {contents : List (List Value)}
    (h : List.Forall₂ s.Lists lists contents) (hheld : ∀ v ∈ lists, s.Holds v)
    (reversed : List Value) :
    concatenation s reversed lists = .ok (contents.flatten.reverse ++ reversed) := by
  induction h generalizing reversed with
  | nil => rfl
  | cons hlists _ ih =>
    rw [concatenation, Store.listArgument_of_lists (hheld _ List.mem_cons_self) hlists]
    simp [ih fun v hv => hheld v (List.mem_cons_of_mem _ hv)]

theorem concatenation_of_not_proper {lists : List Value} (hheld : ∀ v ∈ lists, s.Holds v)
    (hbad : ¬ ∀ v ∈ lists, IsProper s v) (reversed : List Value) :
    ∃ v ∈ lists, ¬ IsProper s v ∧
      concatenation s reversed lists = .error (notAList "append" v) := by
  induction lists generalizing reversed with
  | nil => simp at hbad
  | cons v lists ih =>
    rw [concatenation]
    rcases listArgument_cases (hheld v List.mem_cons_self) "append" with
      ⟨items, hlists, hok⟩ | ⟨hv, herror⟩
    · have hrest : ¬ ∀ w ∈ lists, IsProper s w := by
        intro hall
        exact hbad (List.forall_mem_cons.mpr ⟨⟨items, hlists⟩, hall⟩)
      obtain ⟨w, hw, hbadw, heq⟩ := ih (fun w hw => hheld w (List.mem_cons_of_mem _ hw)) hrest
        (items.reverse ++ reversed)
      exact ⟨w, List.mem_cons_of_mem _ hw, hbadw, by rw [hok, ← heq]⟩
    · exact ⟨v, List.mem_cons_self, hv, by rw [herror]⟩

private theorem append_eq (s : Store) (lists : List Value) (last : Value) :
    append (lists ++ [last]) s =
      match concatenation s [] lists with
      | .ok reversed => .done (s.consAll last reversed).1 (s.consAll last reversed).2
      | .error e => .fail e s := by
  simp only [append, List.getLast?_concat, List.dropLast_concat]
  show (Native.ofExcept (concatenation s [] lists) >>= fun reversed =>
    Native.update fun store => store.consAll last reversed) s = _
  cases concatenation s [] lists <;> rfl

private theorem append_of_lists {lists : List Value} {contents : List (List Value)}
    (h : List.Forall₂ s.Lists lists contents) (hheld : ∀ v ∈ lists, s.Holds v) (last : Value) :
    ∃ v s', append (lists ++ [last]) s = .done v s' ∧
      s.Prepended contents.flatten last v s' := by
  have hnew := s.prepended_consAll last contents.flatten.reverse
  rw [List.reverse_reverse] at hnew
  refine ⟨_, _, ?_, hnew⟩
  rw [append_eq, concatenation_of_lists h hheld, List.append_nil]

private theorem append_of_not_proper {lists : List Value} (hheld : ∀ v ∈ lists, s.Holds v)
    (hbad : ¬ ∀ v ∈ lists, IsProper s v) (last : Value) :
    ∃ v ∈ lists, ¬ IsProper s v ∧
      append (lists ++ [last]) s = .fail (notAList "append" v) s := by
  obtain ⟨v, hv, hnot, heq⟩ := concatenation_of_not_proper hheld hbad []
  exact ⟨v, hv, hnot, by rw [append_eq, heq]⟩

private theorem reverse_eq (s : Store) (l : Value) :
    reverse [l] s =
      match listArgument s "reverse" l with
      | .ok items => .done (s.list items.reverse).1 (s.list items.reverse).2
      | .error e => .fail e s := by
  show (Native.ofExcept (listArgument s "reverse" l) >>= fun items => Native.list items.reverse) s = _
  cases listArgument s "reverse" l <;> rfl

private theorem reverse_of_lists (h : s.Lists v items) (hv : s.Holds v) :
    ∃ w s', reverse [v] s = .done w s' ∧ s.Prepended items.reverse .nil w s' := by
  have hnew := s.prepended_consAll .nil items
  refine ⟨_, _, ?_, hnew⟩
  rw [reverse_eq, Store.listArgument_of_lists hv h]
  simp only [Store.list, Store.listWithTail, List.reverse_reverse]

/-- Reversing a reversed list gives a list of the same elements again, made of other pairs. -/
theorem reverse_reverse_of_lists (h : s.Lists v items) (hv : s.Holds v) :
    ∃ w s' u s'', reverse [v] s = .done w s' ∧ s.Prepended items.reverse .nil w s' ∧
      reverse [w] s' = .done u s'' ∧ s'.Prepended items .nil u s'' ∧
      s''.equal? v u = some true ∧ s''.SameUnfolding v u := by
  obtain ⟨w, s', hreverse, hw⟩ := reverse_of_lists h hv
  have hheld : s'.Holds w := by
    apply hw.stacked.holds (Nat.le_of_eq hw.size.symm)
    · intro c hreach
      cases hreach
    · intro item hitem
      exact (h.holds hv (List.mem_reverse.mp hitem)).extend hw.extends_cells
  obtain ⟨u, s'', hagain, hu⟩ := reverse_of_lists hw.stacked.lists hheld
  rw [List.reverse_reverse] at hu
  have hold : s''.Lists v items :=
    h.extend hv (hw.extends_cells.trans hu.extends_cells)
  have hsize : items.length ≤ s''.cells.size := by
    rw [hu.size]
    exact Nat.le_add_left _ _
  exact ⟨w, s', u, s'', hreverse, hw, hagain, hu, hold.equal? hu.stacked.lists hsize,
    hold.sameUnfolding hu.stacked.lists⟩

/-- Appending succeeds exactly if all arguments but the last are proper lists. Their elements are
then in new pairs, in order, in front of the last argument itself, whatever it is; of what was there
before nothing has changed. Reversing a proper list puts its elements into new pairs too, and doing it
twice gives a list that equals the first one. Any other argument is refused because of its type, and
nothing changes. -/
theorem append_and_reverse_copy_lists (s : Store) :
    (∀ lists last, (∀ v ∈ lists, s.Holds v) →
      ((∃ v s', append (lists ++ [last]) s = .done v s') ↔ ∀ v ∈ lists, IsProper s v) ∧
      (∀ contents, List.Forall₂ s.Lists lists contents →
        ∃ v s', append (lists ++ [last]) s = .done v s' ∧
          s.Prepended contents.flatten last v s') ∧
      ((¬ ∀ v ∈ lists, IsProper s v) → ∃ v ∈ lists, ¬ IsProper s v ∧
        append (lists ++ [last]) s = .fail (notAList "append" v) s)) ∧
    (∀ v, s.Holds v →
      (∀ items, s.Lists v items → ∃ w s' u s'',
        reverse [v] s = .done w s' ∧ s.Prepended items.reverse .nil w s' ∧
        reverse [w] s' = .done u s'' ∧ s'.Prepended items .nil u s'' ∧
        s''.equal? v u = some true ∧ s''.SameUnfolding v u) ∧
      (¬ IsProper s v → reverse [v] s = .fail (notAList "reverse" v) s)) := by
  constructor
  · intro lists last hheld
    refine ⟨?_, fun contents h => append_of_lists h hheld last,
      fun hbad => append_of_not_proper hheld hbad last⟩
    constructor
    · rintro ⟨v, s', hdone⟩
      by_contra hbad
      obtain ⟨w, -, -, hfail⟩ := append_of_not_proper hheld hbad last
      rw [hfail] at hdone
      cases hdone
    · intro hall
      obtain ⟨contents, hcontents⟩ := exists_contents hall
      obtain ⟨v, s', hdone, -⟩ := append_of_lists hcontents hheld last
      exact ⟨v, s', hdone⟩
  · intro v hv
    refine ⟨fun items h => reverse_reverse_of_lists h hv, ?_⟩
    intro hbad
    rcases listArgument_cases hv "reverse" with ⟨items, hlists, -⟩ | ⟨-, herror⟩
    · exact absurd ⟨items, hlists⟩ hbad
    · rw [reverse_eq, herror]

/-- A list of two elements, its end, which is a list too, and a list that is its own element. -/
def tangled : Store :=
  ⟨#[⟨.int 1, .pair ⟨1⟩⟩, ⟨.int 2, .nil⟩, ⟨.pair ⟨2⟩, .nil⟩], #[], #[]⟩

private theorem tangled_lists :
    tangled.Lists (.pair ⟨0⟩) [.int 1, .int 2] ∧ tangled.Lists (.pair ⟨2⟩) [.pair ⟨2⟩] := by
  constructor
  · exact Store.lists_cons_iff.mpr ⟨⟨0⟩, rfl, rfl,
      Store.lists_cons_iff.mpr ⟨⟨1⟩, rfl, rfl, Store.lists_nil_iff.mpr rfl⟩⟩
  · exact Store.lists_cons_iff.mpr ⟨⟨2⟩, rfl, rfl, Store.lists_nil_iff.mpr rfl⟩

/-- The same list is copied twice in front of its own end, which is shared. The list that is its own
element equals what reversing it twice gives, and a number is not reversed. -/
theorem tangled_appended_and_reversed :
    (∃ v s', append [.pair ⟨0⟩, .pair ⟨2⟩, .nil, .pair ⟨0⟩, .pair ⟨1⟩] tangled = .done v s' ∧
      tangled.Prepended [.int 1, .int 2, .pair ⟨2⟩, .int 1, .int 2] (.pair ⟨1⟩) v s') ∧
    (∃ w s' u s'', reverse [.pair ⟨2⟩] tangled = .done w s' ∧ reverse [w] s' = .done u s'' ∧
      s''.equal? (.pair ⟨2⟩) u = some true) ∧
    reverse [.int 3] tangled = .fail (notAList "reverse" (.int 3)) tangled := by
  have hintact : tangled.Intact := by decide
  have hheld : ∀ v : Value, v.isWithin 3 = true → tangled.Holds v := fun v hv => hintact.holds hv
  obtain ⟨hshared, hself⟩ := tangled_lists
  obtain ⟨happend, hreverse⟩ := append_and_reverse_copy_lists tangled
  refine ⟨?_, ?_, ?_⟩
  · have hcopied := happend [.pair ⟨0⟩, .pair ⟨2⟩, .nil, .pair ⟨0⟩] (.pair ⟨1⟩) (by
      intro v hv
      apply hheld
      simp only [List.mem_cons, List.not_mem_nil, or_false] at hv
      rcases hv with rfl | rfl | rfl | rfl <;> rfl)
    exact hcopied.2.1 [[.int 1, .int 2], [.pair ⟨2⟩], [], [.int 1, .int 2]]
      (.cons hshared (.cons hself (.cons (Store.lists_nil_iff.mpr rfl) (.cons hshared .nil))))
  · obtain ⟨w, s', u, s'', hw, -, hu, -, hequal, -⟩ :=
      (hreverse (.pair ⟨2⟩) (hheld _ rfl)).1 _ hself
    exact ⟨w, s', u, s'', hw, hu, hequal⟩
  · apply (hreverse (.int 3) (hheld _ rfl)).2
    rintro ⟨items, hitems⟩
    cases items with
    | nil => simp [Store.lists_nil_iff] at hitems
    | cons item items => simp [Store.lists_cons_iff] at hitems

end Procedures
end MiniScheme
