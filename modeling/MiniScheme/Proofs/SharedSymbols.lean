import Mathlib.Algebra.Group.Nat.Defs
import MiniScheme.Proofs.Alike.Building
import MiniScheme.Proofs.Machine.Symbols
/-! # Sharing a symbol table

Interpreters over one table hand it on from call to call. What one of them interns gives the others
symbols that they have no use for, and moves the slots of those they have; neither can be seen from
what they answer. So each answers to its calls as it would by itself, over a table of its own.

Tables without a maximum grow until the next capacity does not fit a word any more. The statement is
about runs whose tables stay below that.
-/
namespace MiniScheme

namespace State

private theorem grows_after (setting : Setting) {s : State} (h : s.machine.symbols.InOrder)
    (n : Nat) :
    s.machine.symbols.Grows (after setting n s).machine.symbols := by
  induction n generalizing s with
  | zero => exact h.grows_refl
  | succ n ih =>
    have hstep := grows_step setting h
    exact hstep.trans (ih hstep.inOrder)

end State

namespace Interpreter

variable {i j : Interpreter} {r after : Reader} {v : Value} {fuel : Nat}
  {result : Except EvalError Value}

private theorem grows_evaluating (h : i.symbols.InOrder) (caller : Held) (expr : Value)
    (env : FrameId)
    (n : Nat) : i.symbols.Grows (i.evaluating caller expr env n).machine.symbols := by
  have hstart : (State.nest (i.setting caller) i.machine [] expr env).machine.symbols = i.symbols :=
    State.symbols_nest _ _ _ _ _
  have hgrows := State.grows_after (i.setting caller) (by rw [hstart]; exact h) n
  rwa [hstart] at hgrows

theorem Passes.grows {s : State} {rd : Reader} (hpasses : Passes fuel i r v s rd)
    (h : i.symbols.InOrder) : i.symbols.Grows s.machine.symbols := by
  induction hpasses with
  | start => exact h.grows_refl
  | read hread => exact grows_readValue h hread
  | evaluate hread =>
    have hgrows := grows_readValue h hread
    exact hgrows.trans (grows_evaluating hgrows.inOrder _ _ _ _)
  | next hread heval _ ih =>
    have hgrows := grows_readValue h hread
    have hgrows' := hgrows.trans (grows_evaluate hgrows.inOrder heval)
    exact hgrows'.trans (ih hgrows'.inOrder)

private theorem grows_evalRest (h : i.symbols.InOrder)
    (hrun : i.evalRest fuel r v = some (result, j)) :
    i.symbols.Grows j.symbols := by
  induction fuel generalizing i r v with
  | zero => simp [evalRest] at hrun
  | succ fuel ih =>
    rcases evalRest_cases hrun with ⟨outcome, after, hread, -⟩ |
      ⟨datum, after, k, answer, k', hread, heval, hend⟩
    · exact grows_readValue h hread
    · have hgrows := grows_readValue h hread
      have hgrows' := hgrows.trans (grows_evaluate hgrows.inOrder heval)
      rcases hend with ⟨e, -, rfl⟩ | ⟨w, -, hrest⟩
      · exact hgrows'
      · exact hgrows'.trans (ih hgrows'.inOrder hrest)

private theorem grows_evalSource {source : String}
    (hrun : i.evalSource fuel source = some (result, j))
    (h : i.symbols.InOrder) : i.symbols.Grows j.symbols :=
  grows_evalRest h hrun

private theorem grows_evaluating_end {caller : Held} {expr : Value} {env : FrameId}
    (h : i.symbols.InOrder)
    (heval : i.evaluate fuel caller expr env = some (result, j)) {n : Nat} (hn : n < fuel) :
    (i.evaluating caller expr env n).machine.symbols.Grows j.symbols := by
  have hmoment := (grows_evaluating h caller expr env n).inOrder
  obtain ⟨fuel, rfl⟩ := Nat.exists_eq_add_of_lt hn
  rw [evaluate_eq_runFrom, runFrom_eq_map, State.run_eq_after, State.after_add] at heval
  obtain ⟨finished, hfinished, hj⟩ := Option.map_eq_some_iff.mp heval
  obtain ⟨answer, -, rfl⟩ := Option.map_eq_some_iff.mp hfinished
  obtain ⟨-, rfl⟩ := Prod.mk.inj hj
  exact State.grows_after (i.setting caller) hmoment fuel

theorem Passes.grows_end {s : State} {rd : Reader} (hpasses : Passes fuel i r v s rd)
    (h : i.symbols.InOrder) (hrun : i.evalRest fuel r v = some (result, j)) :
    s.machine.symbols.Grows j.symbols := by
  induction hpasses with
  | start => exact grows_evalRest h hrun
  | read hread =>
    have hk := (grows_readValue h hread).inOrder
    rcases evalRest_cases hrun with ⟨outcome, after, hread', -⟩ |
      ⟨datum, after, k, answer, k', hread', heval, hend⟩
    · obtain ⟨-, -, rfl⟩ := by simpa only [Prod.mk.injEq] using hread'.symm.trans hread
      exact hk.grows_refl
    · obtain ⟨-, -, rfl⟩ := by simpa only [Prod.mk.injEq] using hread'.symm.trans hread
      have hgrows := grows_evaluate hk heval
      rcases hend with ⟨e, -, rfl⟩ | ⟨w, -, hrest⟩
      · exact hgrows
      · exact hgrows.trans (grows_evalRest hgrows.inOrder hrest)
  | evaluate hread _ hn =>
    have hk := (grows_readValue h hread).inOrder
    rcases evalRest_cases hrun with ⟨outcome, after, hread', hnone⟩ |
      ⟨datum, after, k, answer, k', hread', heval, hend⟩
    · obtain ⟨rfl, -, -⟩ := by simpa only [Prod.mk.injEq] using hread'.symm.trans hread
      exact absurd rfl (hnone _)
    · obtain ⟨hdatum, -, rfl⟩ := by simpa only [Prod.mk.injEq] using hread'.symm.trans hread
      obtain rfl := Option.some.inj (Except.ok.inj hdatum)
      have hgrows := grows_evaluating_end hk heval hn
      rcases hend with ⟨e, -, rfl⟩ | ⟨w, -, hrest⟩
      · exact hgrows
      · exact hgrows.trans (grows_evalRest hgrows.inOrder hrest)
  | next hread heval _ ih =>
    have hgrows := grows_readValue h hread
    rw [evalRest, hread] at hrun
    dsimp only at hrun
    rw [heval] at hrun
    exact ih (grows_evaluate hgrows.inOrder heval).inOrder hrun

end Interpreter

/-- The table's next capacity fits a word. -/
def SymbolTable.FitsWord (t : SymbolTable) : Prop := t.capacity + 1 < 2 ^ 63

namespace SymbolTable

variable {t t' : SymbolTable}

private theorem FitsWord.canGrow (h : t.FitsWord) (hmax : t.maxCapacity = none) : t.CanGrow := by
  unfold FitsWord capacity at h
  refine ⟨2 * (t.slots.size + 1) - 1, ?_, by simp [hmax]⟩
  unfold nextCapacity
  rw [if_pos (by omega)]

private theorem Grows.fitsWord (h : t.Grows t') (hfits : t'.FitsWord) : t.FitsWord :=
  Nat.lt_of_le_of_lt (Nat.succ_le_succ h.size_le) hfits

end SymbolTable

/-- What a caller sees of an evaluated text: the value as it is printed or the error, the output so
far, and how many values wait on the call stack and ever did. -/
structure Reply where
  result : Except EvalError String
  output : Output
  waiting : Nat
  peak : Nat

namespace Interpreter

def reply (i : Interpreter) (result : Except EvalError Value) : Reply where
  result := result.map i.machine.store.text
  output := i.machine.output
  waiting := i.machine.calls.size
  peak := i.machine.calls.peak

/-- The replies to texts that are evaluated one after the other, up to the first that does not end. -/
def replies (fuel : Nat) (i : Interpreter) : List String → List Reply
  | [] => []
  | source :: sources =>
    match i.evalSource fuel source with
    | some (result, i) => i.reply result :: i.replies fuel sources
    | none => []

/-- Evaluating the text meets no table too large for a word. -/
def Fits (fuel : Nat) (i : Interpreter) (source : String) : Prop :=
  ∀ s r, Passes fuel i (.ofString source) .unspecified s r → s.machine.symbols.FitsWord

def FitsAll (fuel : Nat) (i : Interpreter) : List String → Prop
  | [] => True
  | source :: sources => i.Fits fuel source ∧
    ∀ result j, i.evalSource fuel source = some (result, j) → j.FitsAll fuel sources

variable {i i' j : Interpreter} {fuel : Nat} {source : String}

private theorem Fits.hasRoom (h : i.Fits fuel source) (hi : i.symbols.InOrder)
    (hmax : i.symbols.maxCapacity = none) :
    HasRoom fuel i (.ofString source) .unspecified := by
  intro s r hpasses
  have hgrows := hpasses.grows hi
  exact (h s r hpasses).canGrow (hgrows.maxCapacity.trans hmax)

theorem fits_of_evalSource {result : Except EvalError Value} (hi : i.symbols.InOrder)
    (hrun : i.evalSource fuel source = some (result, j)) (hj : j.symbols.FitsWord) :
    i.Fits fuel source :=
  fun _ _ hpasses => (hpasses.grows_end hi hrun).fitsWord hj

/-- The table that texts lead to, if all of them end. -/
def tableAfter (fuel : Nat) (i : Interpreter) : List String → Option SymbolTable
  | [] => some i.symbols
  | source :: sources =>
    match i.evalSource fuel source with
    | some (_, i) => i.tableAfter fuel sources
    | none => none

private theorem fitsAll_of_tableAfter {sources : List String} {t : SymbolTable}
    (hi : i.symbols.InOrder) (h : i.tableAfter fuel sources = some t) (ht : t.FitsWord) :
    i.symbols.FitsWord ∧ i.FitsAll fuel sources := by
  induction sources generalizing i with
  | nil =>
    obtain rfl := Option.some.inj h
    exact ⟨ht, trivial⟩
  | cons source sources ih =>
    rw [tableAfter] at h
    split at h
    · next result j hrun =>
      have hgrows := grows_evalSource hrun hi
      obtain ⟨hj, hrest⟩ := ih hgrows.inOrder h
      refine ⟨hgrows.fitsWord hj, fits_of_evalSource hi hrun hj, ?_⟩
      intro result' j' hrun'
      obtain ⟨-, rfl⟩ := Prod.mk.inj (Option.some.inj (hrun.symm.trans hrun'))
      exact hrest
    · simp at h

private theorem Alike.reply_eq {K : Terms} {L : Link K} (h : i.Alike L i')
    {a b : Except EvalError Value} (hresult : Answer K.error (Value.Alike L) a b)
    (hcounted : K.counted := by trivial) : i'.reply b = i.reply a := by
  have hwaiting : i'.machine.calls.size = i.machine.calls.size := h.machine.calls.size_eq
  unfold reply
  rw [h.machine.output, hwaiting, h.machine.peak hcounted]
  cases hresult with
  | ok hv => simp only [Except.map, h.machine.store.text_eq hv]
  | error _ => rfl

theorem Alike.withSymbols_left {K : Terms} {L : Link K} (hK : ¬ K.strict) (h : i.Alike L i')
    {t : SymbolTable} (hgrows : i.symbols.Grows t) : ∃ L' : Link K, (i.withSymbols t).Alike L' i' := by
  obtain ⟨L', hinterns, hreads⟩ := h.machine.symbols.grow hgrows
    h.machine.symbols.right.grows_refl fun hstrict => absurd hstrict hK
  exact ⟨L', { h with machine := h.machine.withSymbols hinterns hreads }⟩

end Interpreter

/-! Two interpreters over one table, the first one being that of `false`. -/

/-- The interpreters after one of them has come to be `i`: the other gets the table. -/
def handOn (pair : Bool → Interpreter) (who : Bool) (i : Interpreter) (side : Bool) : Interpreter :=
  if side = who then i else (pair side).withSymbols i.symbols

/-- The replies to calls on one or the other, up to the first that does not end. -/
def sharedReplies (fuel : Nat) (pair : Bool → Interpreter) :
    List (Bool × String) → List (Bool × Reply)
  | [] => []
  | (who, source) :: calls =>
    match (pair who).evalSource fuel source with
    | some (result, i) => (who, i.reply result) :: sharedReplies fuel (handOn pair who i) calls
    | none => []

def SharedFits (fuel : Nat) (pair : Bool → Interpreter) : List (Bool × String) → Prop
  | [] => True
  | (who, source) :: calls => (pair who).Fits fuel source ∧
    ∀ result i, (pair who).evalSource fuel source = some (result, i) →
      SharedFits fuel (handOn pair who i) calls

/-- What belongs to one of the two. -/
def ofSide {α : Type} (who : Bool) : List (Bool × α) → List α
  | [] => []
  | (side, a) :: items => if side = who then a :: ofSide who items else ofSide who items

/-- Interpreters over one table, and interpreters that are alike to them, each over a table of its
own. -/
structure Companions (pair alone : Bool → Interpreter) : Prop where
  table : ∀ side other, (pair other).symbols = (pair side).symbols
  alike : ∀ side, ∃ L : Link (Terms.any False), (pair side).Alike L (alone side)
  unlimited : ∀ side, (pair side).symbols.maxCapacity = none
  unlimited_alone : ∀ side, (alone side).symbols.maxCapacity = none

private theorem symbols_handOn (pair : Bool → Interpreter) (who : Bool) (i : Interpreter)
    (side : Bool) :
    (handOn pair who i side).symbols = i.symbols := by
  unfold handOn
  split <;> rfl

/-- The table that calls lead to, if all of them end. -/
def sharedTableAfter (fuel : Nat) (pair : Bool → Interpreter) :
    List (Bool × String) → Option SymbolTable
  | [] => some (pair false).symbols
  | (who, source) :: calls =>
    match (pair who).evalSource fuel source with
    | some (_, i) => sharedTableAfter fuel (handOn pair who i) calls
    | none => none

private theorem sharedFits_of_tableAfter {fuel : Nat} {pair : Bool → Interpreter}
    {u t : SymbolTable}
    {calls : List (Bool × String)} (hpair : ∀ side, (pair side).symbols = u) (hu : u.InOrder)
    (h : sharedTableAfter fuel pair calls = some t) (ht : t.FitsWord) :
    u.FitsWord ∧ SharedFits fuel pair calls ∧
      (sharedReplies fuel pair calls).length = calls.length := by
  induction calls generalizing pair u with
  | nil =>
    obtain rfl := Option.some.inj h
    rw [hpair] at ht
    exact ⟨ht, trivial, rfl⟩
  | cons call calls ih =>
    obtain ⟨who, source⟩ := call
    rw [sharedTableAfter] at h
    split at h
    · next result i hrun =>
      have hin : (pair who).symbols.InOrder := by
        rw [hpair]
        exact hu
      have hgrows := Interpreter.grows_evalSource hrun hin
      obtain ⟨hi, hrest, hlength⟩ := ih (symbols_handOn pair who i) hgrows.inOrder h
      refine ⟨?_, ⟨Interpreter.fits_of_evalSource hin hrun hi, ?_⟩, ?_⟩
      · rw [← hpair who]
        exact hgrows.fitsWord hi
      · intro result' i' hrun'
        obtain ⟨-, rfl⟩ := Prod.mk.inj (Option.some.inj (hrun.symm.trans hrun'))
        exact hrest
      · simp [sharedReplies, hrun, hlength]
    · simp at h

private theorem Companions.step {pair alone : Bool → Interpreter} (h : Companions pair alone)
    {who : Bool} {j j' : Interpreter} {L : Link (Terms.any False)} (hj : j.Alike L j')
    (hgrows : (pair who).symbols.Grows j.symbols) (hgrows' : (alone who).symbols.Grows j'.symbols) :
    Companions (handOn pair who j) (Function.update alone who j') where
  table side other := by rw [symbols_handOn, symbols_handOn]
  unlimited side := by
    rw [symbols_handOn]
    exact hgrows.maxCapacity.trans (h.unlimited who)
  unlimited_alone side := by
    by_cases hside : side = who
    · subst hside
      rw [Function.update_self]
      exact hgrows'.maxCapacity.trans (h.unlimited_alone side)
    · rw [Function.update_of_ne hside]
      exact h.unlimited_alone side
  alike side := by
    unfold handOn
    by_cases hside : side = who
    · subst hside
      rw [if_pos rfl, Function.update_self]
      exact ⟨L, hj⟩
    · rw [if_neg hside, Function.update_of_ne hside]
      obtain ⟨L₀, halike⟩ := h.alike side
      rw [h.table side who] at hgrows
      exact halike.withSymbols_left id hgrows

/-- The replies of each are those that it gives by itself, as far as the other lets it come. -/
theorem Companions.replies {pair alone : Bool → Interpreter} (h : Companions pair alone) {fuel : Nat}
    {calls : List (Bool × String)} (hfits : SharedFits fuel pair calls)
    (hfits_alone : ∀ side, (alone side).FitsAll fuel (ofSide side calls)) (side : Bool) :
    ofSide side (sharedReplies fuel pair calls) <+: (alone side).replies fuel (ofSide side calls) ∧
      ((sharedReplies fuel pair calls).length = calls.length →
        ofSide side (sharedReplies fuel pair calls) =
          (alone side).replies fuel (ofSide side calls)) := by
  induction calls generalizing pair alone with
  | nil => simp [sharedReplies, ofSide, Interpreter.replies]
  | cons call calls ih =>
    obtain ⟨who, source⟩ := call
    obtain ⟨L, halike⟩ := h.alike who
    have hfits_who := hfits_alone who
    simp only [ofSide, if_true, Interpreter.FitsAll] at hfits_who
    have hin := halike.machine.symbols.left
    have hin' := halike.machine.symbols.right
    have hended := halike.evalSource fuel source
      (.inr ⟨hfits.1.hasRoom hin (h.unlimited who),
        hfits_who.1.hasRoom hin' (h.unlimited_alone who)⟩)
    generalize hx : (pair who).evalSource fuel source = x at hended
    generalize hy : (alone who).evalSource fuel source = y at hended
    cases hended with
    | unfinished => simp [sharedReplies, hx, ofSide]
    | @finished L' a b j j' _ hresult hj =>
      have hnext := h.step hj (Interpreter.grows_evalSource hx hin)
        (Interpreter.grows_evalSource hy hin')
      have hrest := ih hnext (hfits.2 a j hx) ?_
      · rw [sharedReplies, hx]
        by_cases hside : who = side
        · subst hside
          rw [Function.update_self] at hrest
          simp only [ofSide, if_true, Interpreter.replies, hy, hj.reply_eq hresult, List.length_cons,
            List.cons_prefix_cons, List.cons.injEq, true_and, Nat.add_right_cancel_iff]
          exact hrest
        · rw [Function.update_of_ne (Ne.symm hside)] at hrest
          simp only [ofSide, if_neg hside, List.length_cons, Nat.add_right_cancel_iff]
          exact hrest
      · intro other
        by_cases hother : other = who
        · subst hother
          rw [Function.update_self]
          exact hfits_who.2 b j' hy
        · rw [Function.update_of_ne hother]
          have hfits_other := hfits_alone other
          rwa [ofSide, if_neg (Ne.symm hother)] at hfits_other

/-- Two interpreters over one table do not disturb each other. Whatever is evaluated by one or the
other in turn, each replies as it does by itself over a table of its own: its replies are the first of
those, and all of them if every call ends. The tables have no maximum and stay within a word. -/
theorem sharing_leaves_replies (configs : Bool → Config) {t : SymbolTable} (ht : t.InOrder)
    (hmax : t.maxCapacity = none) {first second : Interpreter}
    (hfirst : Interpreter.build (configs false) t = .ok first)
    (hsecond : Interpreter.build (configs true) first.symbols = .ok second)
    (own : Bool → SymbolTable) (hown : ∀ side, (own side).InOrder)
    (hown_max : ∀ side, (own side).maxCapacity = none) (alone : Bool → Interpreter)
    (halone : ∀ side, Interpreter.build (configs side) (own side) = .ok (alone side))
    (fuel : Nat) (calls : List (Bool × String)) :
    let pair (side : Bool) := if side then second else first.withSymbols second.symbols
    SharedFits fuel pair calls → (∀ side, (alone side).FitsAll fuel (ofSide side calls)) →
    ∀ side,
      ofSide side (sharedReplies fuel pair calls) <+:
        (alone side).replies fuel (ofSide side calls) ∧
      ((sharedReplies fuel pair calls).length = calls.length →
        ofSide side (sharedReplies fuel pair calls) =
          (alone side).replies fuel (ofSide side calls)) := by
  intro pair hfits hfits_alone
  have hgrows := Interpreter.grows_build ht hfirst
  have hgrows' := Interpreter.grows_build hgrows.inOrder hsecond
  have hunlimited : second.symbols.maxCapacity = none :=
    hgrows'.maxCapacity.trans (hgrows.maxCapacity.trans hmax)
  have hpair (side : Bool) : (pair side).symbols = second.symbols := by cases side <;> rfl
  refine Companions.replies ⟨?_, ?_, ?_, ?_⟩ hfits hfits_alone
  · intro side other
    rw [hpair, hpair]
  · intro side
    cases side with
    | false =>
      obtain ⟨L, halike⟩ :=
        Interpreter.alike_build ht (hown false) False.elim hfirst (halone false)
      exact halike.withSymbols_left id hgrows'
    | true => exact Interpreter.alike_build hgrows.inOrder (hown true) False.elim hsecond (halone true)
  · intro side
    rw [hpair]
    exact hunlimited
  · intro side
    exact (Interpreter.grows_build (hown side) (halone side)).maxCapacity.trans (hown_max side)

/-- Between a definition and its use the other interpreter interns a name, and the table has moved to
more slots on the way. -/
theorem definition_survives_foreign_name :
    ∃ first second alone,
      Interpreter.build {} (.withCapacity 1 none .polynomial) = .ok first ∧
      Interpreter.build { standard := false } first.symbols = .ok second ∧
      Interpreter.build {} (.withCapacity 200 none .polynomial) = .ok alone ∧
      ofSide false (sharedReplies 60
        (fun side => if side then second else first.withSymbols second.symbols)
        [(false, "(define k 'zeta)"), (true, "eta"), (false, "(eq? k 'zeta)")]) =
      alone.replies 60 ["(define k 'zeta)", "(eq? k 'zeta)"] := by
  let bare (t : SymbolTable) := Interpreter.bare { standard := false } t
  let pair (first : Interpreter) (side : Bool) :=
    if side then bare first.symbols else first.withSymbols first.symbols
  let calls := [(false, "(define k 'zeta)"), (true, "eta"), (false, "(eq? k 'zeta)")]
  have hshared : ((Interpreter.build {} (.withCapacity 1 none .polynomial)).toOption.bind
      fun first => (sharedTableAfter 60 (pair first) calls).map (·.capacity)) = some 127 := by
    decide +kernel
  have halone : ((Interpreter.build {} (.withCapacity 200 none .polynomial)).toOption.bind
      fun alone => (alone.tableAfter 60 (ofSide false calls)).map (·.capacity)) = some 200 := by
    decide +kernel
  have hother : ((bare (.withCapacity 8 none .polynomial)).tableAfter 60 (ofSide true calls)).map
      (·.capacity) = some 8 := by
    decide +kernel
  have hfits {t : SymbolTable} {n : Nat} (h : t.capacity = n) (hn : n < 1000) : t.FitsWord := by
    unfold SymbolTable.FitsWord
    omega
  have hempty (n : Nat) := SymbolTable.inOrder_withCapacity n none .polynomial
  obtain ⟨first, hfirst, hshared⟩ := Option.bind_eq_some_iff.mp hshared
  obtain ⟨t, hshared, ht⟩ := Option.map_eq_some_iff.mp hshared
  obtain ⟨alone, hbuilt, halone⟩ := Option.bind_eq_some_iff.mp halone
  obtain ⟨t', halone, ht'⟩ := Option.map_eq_some_iff.mp halone
  obtain ⟨t'', hother, ht''⟩ := Option.map_eq_some_iff.mp hother
  have hfirst := Interpreter.build_eq_ok hfirst
  have hbuilt := Interpreter.build_eq_ok hbuilt
  obtain ⟨-, hsharedFits, hlength⟩ := sharedFits_of_tableAfter (fun side => by cases side <;> rfl)
    (Interpreter.grows_build (hempty 1) hfirst).inOrder hshared (hfits ht (by decide))
  refine ⟨first, bare first.symbols, alone, hfirst, rfl, hbuilt, ?_⟩
  refine (sharing_leaves_replies (fun side => if side then { standard := false } else {})
    (hempty 1) rfl hfirst rfl
    (fun side => .withCapacity (if side then 8 else 200) none .polynomial)
    (fun _ => hempty _) (fun _ => rfl)
    (fun side => if side then bare (.withCapacity 8 none .polynomial) else alone) ?_ 60 calls
    hsharedFits ?_ false).2 hlength
  · intro side
    cases side with
    | false => exact hbuilt
    | true => rfl
  · intro side
    cases side with
    | false =>
      exact (Interpreter.fitsAll_of_tableAfter (Interpreter.grows_build (hempty 200) hbuilt).inOrder
        halone (hfits ht' (by decide))).2
    | true =>
      have hin : (bare (.withCapacity 8 none .polynomial)).symbols.InOrder := hempty 8
      exact (Interpreter.fitsAll_of_tableAfter hin hother (hfits ht'' (by decide))).2

end MiniScheme
