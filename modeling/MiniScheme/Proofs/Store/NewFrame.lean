import MiniScheme.Proofs.Native.Syntax
import MiniScheme.Proofs.Store.Environments
import MiniScheme.Proofs.Store.NewPairs
/-! # Frames of calls

A call gets a new frame inside the environment of its closure. Each parameter is bound there to the
argument in its place; a parameter for the rest is bound to a list of the remaining arguments, made of
new pairs. Nothing that was in the store before changes.
-/
namespace MiniScheme

open MiniScheme.Symbol (Distinct any_same_iff)

namespace Formals

def required : Formals → List Symbol
  | fixed names => names
  | variadic names _ => names

/-- The parameter that takes the remaining arguments. -/
def rest? : Formals → Option Symbol
  | fixed _ => none
  | variadic _ rest => some rest

def names (formals : Formals) : List Symbol := formals.required ++ formals.rest?.toList

/-- So many arguments can be bound. -/
def Takes : Formals → (count : Nat) → Prop
  | fixed names, count => count = names.length
  | variadic names _, count => names.length ≤ count

private theorem accepts_iff_takes (formals : Formals) (count : Nat) :
    formals.arity.accepts count = true ↔ formals.Takes count := by
  cases formals with
  | fixed names => exact beq_iff_eq
  | variadic names rest => exact decide_eq_true_iff

private theorem Takes.length_le {formals : Formals} {count : Nat} (h : formals.Takes count) :
    formals.required.length ≤ count := by
  cases formals with
  | fixed names => exact Nat.le_of_eq h.symm
  | variadic names rest => exact h

end Formals

namespace Frame

variable {f : Frame} {x : Symbol} {v : Value}

private theorem put_of_new (h : x.id ∉ f.names.map Symbol.id) (v : Value) :
    f.put x v = { f with bindings := (x, v) :: f.bindings } := by
  rw [put, if_neg]
  rwa [binds_eq_any_names, any_same_iff]

theorem get?_of_mem (hdistinct : Distinct f.names) (h : (x, v) ∈ f.bindings) :
    f.get? x = some v := by
  obtain ⟨bindings, parent⟩ := f
  induction bindings with
  | nil => simp at h
  | cons b bindings ih =>
    obtain ⟨hb, hdistinct⟩ := List.nodup_cons.mp hdistinct
    rcases List.mem_cons.mp h with rfl | h
    · simp [get?]
    · have hother : b.1.same x = false := by
        rw [← Bool.not_eq_true, Symbol.same_iff]
        intro hsame
        rw [hsame] at hb
        exact hb (List.mem_map_of_mem (List.mem_map_of_mem h))
      have hget := ih hdistinct h
      rw [get?] at hget ⊢
      rwa [List.find?_cons_of_neg (by simp [hother])]

end Frame

namespace Store

variable {s s' : Store} {env e f : FrameId} {v : Value} {items args : List Value}
  {bindings : List (Symbol × Value)} {formals : Formals} {n : Nat}

private theorem defineAll_concat (s : Store) (e : FrameId) (bindings : List (Symbol × Value))
    (x : Symbol) (v : Value) :
    s.defineAll e (bindings ++ [(x, v)]) = (s.defineAll e bindings).define e x v := by
  induction bindings generalizing s with
  | nil => rfl
  | cons b bindings ih => exact ih _

private theorem size_defineAll (s : Store) (e : FrameId) (bindings : List (Symbol × Value)) :
    (s.defineAll e bindings).frames.size = s.frames.size := by
  induction bindings generalizing s with
  | nil => rfl
  | cons b bindings ih => rw [defineAll, ih, size_define]

private theorem elsewhere_defineAll (s : Store) (e : FrameId) (bindings : List (Symbol × Value)) :
    (s.defineAll e bindings).cells = s.cells ∧ (s.defineAll e bindings).closures = s.closures := by
  induction bindings generalizing s with
  | nil => exact ⟨rfl, rfl⟩
  | cons b bindings ih => exact ih _

private theorem frame_defineAll_of_ne (h : f ≠ e) (s : Store) (bindings : List (Symbol × Value)) :
    (s.defineAll e bindings).frame f = s.frame f := by
  induction bindings generalizing s with
  | nil => rfl
  | cons b bindings ih => rw [defineAll, ih, define, frame_modifyFrame_eq, if_neg fun hf => h hf.1]

theorem frame_defineAll (he : e.index < s.frames.size)
    (hdistinct : Distinct (bindings.map (·.1) ++ (s.frame e).names)) :
    (s.defineAll e bindings).frame e =
      { s.frame e with bindings := bindings.reverse ++ (s.frame e).bindings } := by
  induction bindings generalizing s with
  | nil => rfl
  | cons b bindings ih =>
    have hnew : b.1.id ∉ (s.frame e).names.map Symbol.id := Symbol.Distinct.not_mem hdistinct
    have hframe : (s.define e b.1 b.2).frame e =
        { s.frame e with bindings := b :: (s.frame e).bindings } := by
      rw [define, frame_modifyFrame_eq, if_pos ⟨rfl, he⟩, Frame.put_of_new hnew]
    have hnames : ((s.define e b.1 b.2).frame e).names = b.1 :: (s.frame e).names := by
      rw [hframe]
      rfl
    rw [defineAll, ih (by rwa [size_define])]
    · simp [hframe]
    · rw [hnames]
      exact Symbol.distinct_middle.mpr hdistinct

/-- A proper list of these items, all of its pairs at `n` or behind. -/
inductive ListsFrom (n : Nat) (s : Store) : Value → List Value → Prop
  | nil : ListsFrom n s .nil []
  | pair {c : CellId} {items : List Value} (hn : n ≤ c.index) (hc : c.index < s.cells.size)
    (behind : ListsFrom n s (s.rest c) items) : ListsFrom n s (.pair c) (s.first c :: items)

private theorem ListsFrom.extend (h : s.ListsFrom n v items) (hs : s.Extends s') :
    s'.ListsFrom n v items := by
  induction h with
  | nil => exact .nil
  | @pair c items hn hc _ ih =>
    obtain ⟨hc', hcell⟩ := hs c hc
    have hrest : s'.rest c = s.rest c := congrArg Cell.rest hcell
    have hfirst : s'.first c = s.first c := congrArg Cell.first hcell
    rw [← hrest] at ih
    rw [← hfirst]
    exact .pair hn hc' ih

private theorem Stacked.listsFrom (h : s.Stacked n .nil v items)
    (hsize : n + items.length ≤ s.cells.size) :
    s.ListsFrom n v items := by
  generalize hlast : Value.nil = last at h
  induction h with
  | here =>
    rw [← hlast]
    exact .nil
  | @pair v item items _ hcell ih =>
    rw [List.length_cons] at hsize
    have hlist : s.ListsFrom n (.pair ⟨n + items.length⟩)
        (s.first ⟨n + items.length⟩ :: items) := by
      refine .pair (Nat.le_add_right _ _) ?_ ?_
      · show n + items.length < s.cells.size
        omega
      · rw [Store.rest, hcell]
        exact ih (by omega)
    rwa [Store.first, hcell] at hlist

theorem listsFrom_list (s : Store) (items : List Value) :
    (s.list items).2.ListsFrom s.cells.size (s.list items).1 items := by
  have hnew := s.prepended_consAll .nil items.reverse
  rw [List.reverse_reverse] at hnew
  exact hnew.stacked.listsFrom (Nat.le_of_eq hnew.size.symm)

/-- The second store has one frame more, and no pair, frame or closure of the first has changed. The
new frame is inside of `env` and binds the parameters and nothing else: each that takes one argument
to the one in its place, and one for the rest to a list of the others, made of new pairs. -/
structure FrameAdded (s : Store) (env : FrameId) (formals : Formals) (args : List Value)
    (s' : Store) : Prop where
  size : s'.frames.size = s.frames.size + 1
  frames : ∀ e : FrameId, e.index < s.frames.size → s'.frame e = s.frame e
  pairs : s.Extends s'
  closures : s'.closures = s.closures
  parent : (s'.frame ⟨s.frames.size⟩).parent = some env
  names : (s'.frame ⟨s.frames.size⟩).names.Perm formals.names
  required : ∀ (i : Nat) (x : Symbol), formals.required[i]? = some x →
    ∃ v : Value, args[i]? = some v ∧ (s'.frame ⟨s.frames.size⟩).get? x = some v
  rest : ∀ x, formals.rest? = some x →
    ∃ v, (s'.frame ⟨s.frames.size⟩).get? x = some v ∧
      s'.ListsFrom s.cells.size v (args.drop formals.required.length)

theorem frame_new_defineAll (hframes : s'.frames = (s.child env).2.frames)
    (hdistinct : Distinct (bindings.map (·.1))) :
    (s'.defineAll ⟨s.frames.size⟩ bindings).frame ⟨s.frames.size⟩ =
        ⟨bindings.reverse, some env⟩ ∧
      ∀ e : FrameId, e.index < s.frames.size →
        (s'.defineAll ⟨s.frames.size⟩ bindings).frame e = s.frame e := by
  have hnew : s'.frame ⟨s.frames.size⟩ = ⟨[], some env⟩ := by
    rw [frame_of_frames_eq hframes, child, frame_newFrame, if_pos rfl]
  have hsize : s.frames.size < s'.frames.size := by
    rw [hframes, size_child]
    exact Nat.lt_succ_self _
  refine ⟨?_, fun e he => ?_⟩
  · rw [frame_defineAll (e := ⟨s.frames.size⟩) hsize (by simpa [hnew, Frame.names] using hdistinct), hnew,
      List.append_nil]
  · have hne : e ≠ ⟨s.frames.size⟩ := fun heq => Nat.ne_of_lt he (congrArg FrameId.index heq)
    rw [frame_defineAll_of_ne hne, frame_of_frames_eq hframes, frame_child env he]

/-- The parameters are bound in a new frame, where `added` is what the one for the rest is bound to. -/
theorem frameAdded_defineAll {added : List (Symbol × Value)}
    (hframes : s'.frames = (s.child env).2.frames) (hpairs : s.Extends s')
    (hclosures : s'.closures = s.closures) (hdistinct : Distinct formals.names)
    (hlength : formals.required.length ≤ args.length)
    (hadded : added.map (·.1) = formals.rest?.toList)
    (hrest : ∀ b ∈ added,
      s'.ListsFrom s.cells.size b.2 (args.drop formals.required.length)) :
    s.FrameAdded env formals args
      (s'.defineAll ⟨s.frames.size⟩ (formals.required.zip args ++ added)) := by
  have hnames : (formals.required.zip args ++ added).map (·.1) = formals.names := by
    rw [List.map_append, List.map_fst_zip hlength, hadded, Formals.names]
  obtain ⟨hnew, hold⟩ := frame_new_defineAll hframes (hnames ▸ hdistinct)
  obtain ⟨hcells, hclosures'⟩ :=
    s'.elsewhere_defineAll ⟨s.frames.size⟩ (formals.required.zip args ++ added)
  have hextends := extends_of_cells hcells
  have hframe : Frame.names ⟨(formals.required.zip args ++ added).reverse, some env⟩ =
      formals.names.reverse := by
    rw [Frame.names, List.map_reverse, hnames]
  have hget {x : Symbol} {v : Value} (h : (x, v) ∈ formals.required.zip args ++ added) :
      Frame.get? ⟨(formals.required.zip args ++ added).reverse, some env⟩ x = some v := by
    apply Frame.get?_of_mem
    · rwa [hframe, Symbol.distinct_reverse]
    · exact List.mem_reverse.mpr h
  refine ⟨?_, hold, hpairs.trans hextends, hclosures'.trans hclosures, ?_, ?_, ?_, ?_⟩
  · rw [size_defineAll, hframes, size_child]
  · rw [hnew]
  · rw [hnew, hframe]
    exact List.reverse_perm _
  · intro i x hx
    obtain ⟨hi, -⟩ := List.getElem?_eq_some_iff.mp hx
    obtain ⟨v, hv⟩ : ∃ v, args[i]? = some v := by
      rw [← Option.isSome_iff_exists, isSome_getElem?]
      omega
    refine ⟨v, hv, ?_⟩
    rw [hnew]
    apply hget
    exact List.mem_append_left _
      (List.mem_of_getElem? (List.getElem?_zip_eq_some.mpr ⟨hx, hv⟩))
  · intro x hx
    obtain ⟨b, hb, rfl⟩ : ∃ b ∈ added, b.1 = x := by
      rw [hx] at hadded
      exact List.mem_map.mp (hadded ▸ List.mem_singleton_self x)
    refine ⟨b.2, ?_, (hrest b hb).extend hextends⟩
    rw [hnew]
    exact hget (List.mem_append_right _ hb)

/-- Arguments of the right number are bound in a new frame. -/
theorem extend_of_takes (s : Store) (env : FrameId) (hdistinct : Distinct formals.names)
    (htakes : formals.Takes args.length) :
    (s.extend env formals args).1 = .ok ⟨s.frames.size⟩ ∧
      s.FrameAdded env formals args (s.extend env formals args).2 := by
  have haccepts := (formals.accepts_iff_takes args.length).mpr htakes
  have hchild : s.Extends (s.child env).2 := extends_of_cells rfl
  cases formals with
  | fixed names =>
    refine ⟨by simp only [extend, if_pos haccepts]; rfl, ?_⟩
    have hadds : s.FrameAdded env (.fixed names) args
        ((s.child env).2.defineAll ⟨s.frames.size⟩ (names.zip args ++ [])) :=
      frameAdded_defineAll rfl hchild rfl hdistinct htakes.length_le rfl (by simp)
    simp only [extend, if_pos haccepts]
    rwa [List.append_nil] at hadds
  | variadic names rest =>
    refine ⟨by simp only [extend, if_pos haccepts]; rfl, ?_⟩
    have hpairs := (s.child env).2.prepended_consAll .nil (args.drop names.length).reverse
    have hnew := (s.child env).2.listsFrom_list (args.drop names.length)
    have hadds : s.FrameAdded env (.variadic names rest) args
        (((s.child env).2.list (args.drop names.length)).2.defineAll ⟨s.frames.size⟩
          (names.zip args ++ [(rest, ((s.child env).2.list (args.drop names.length)).1)])) :=
      frameAdded_defineAll hpairs.frames (hchild.trans hpairs.extends_cells) hpairs.closures
        hdistinct htakes.length_le rfl fun b hb => List.mem_singleton.mp hb ▸ hnew
    rw [defineAll_concat] at hadds
    simp only [extend, if_pos haccepts]
    exact hadds

theorem bind_cases (s : Store) (c : Closure) (args : List Value)
    (hdistinct : Distinct c.formals.names) :
    (c.formals.Takes args.length ∧ (s.bind c args).1 = .ok ⟨s.frames.size⟩ ∧
        s.FrameAdded c.env c.formals args (s.bind c args).2) ∨
      ¬ c.formals.Takes args.length ∧
        s.bind c args = (.error (.arity c.displayName c.formals.arity args.length), s) := by
  rw [← c.formals.accepts_iff_takes]
  cases haccepts : c.formals.arity.accepts args.length with
  | true =>
    have htakes := (c.formals.accepts_iff_takes args.length).mp haccepts
    have hbind : s.bind c args = s.extend c.env c.formals args := by
      simp only [bind, Arity.check, haccepts, if_true]
    rw [hbind]
    exact .inl ⟨rfl, s.extend_of_takes c.env hdistinct htakes⟩
  | false =>
    refine .inr ⟨Bool.false_ne_true, ?_⟩
    simp [bind, Arity.check, haccepts]

end Store
end MiniScheme
