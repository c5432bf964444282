import MiniScheme.Proofs.Machine.CallStack
import MiniScheme.Proofs.Store.ListLength
/-! # One evaluation after the other

A run is put together from runs of its parts: what has been started above waiting work proceeds to
the moment that this work is given the answer. An expression settles on a value if evaluating it
gives the value and has no effect; operands that settle one after the other are the arguments of
their application.
-/
namespace MiniScheme

structure Machine.SameEffects (m m' : Machine) : Prop where
  store : m'.store = m.store
  symbols : m'.symbols = m.symbols
  output : m'.output = m.output

namespace Machine.SameEffects

variable {m m' m'' : Machine}

theorem refl (m : Machine) : m.SameEffects m := ⟨rfl, rfl, rfl⟩

theorem symm (h : m.SameEffects m') : m'.SameEffects m :=
  ⟨h.store.symm, h.symbols.symm, h.output.symm⟩

theorem trans (h : m.SameEffects m') (h' : m'.SameEffects m'') : m.SameEffects m'' :=
  ⟨h'.store.trans h.store, h'.symbols.trans h.symbols, h'.output.trans h.output⟩

end Machine.SameEffects

theorem Machine.SameStack.trans {m m' m'' : Machine} (h : m.SameStack m')
    (h' : m'.SameStack m'') : m.SameStack m'' :=
  ⟨h'.1.trans h.1, h'.2.trans h.2⟩

def Machine.deeper (m : Machine) : Machine :=
  { m with depth := m.depth + 1, counters := m.counters.map (·.recordDepth (m.depth + 1)) }

/-- A nested evaluation may be started at this depth. -/
def Setting.Allows (setting : Setting) (depth : Nat) : Prop :=
  ∀ limit, setting.maxDepth = some limit → depth < limit

theorem Setting.Allows.mono {setting : Setting} {depth depth' : Nat} (h : setting.Allows depth')
    (hle : depth ≤ depth') : setting.Allows depth :=
  fun limit hlimit => Nat.lt_of_le_of_lt hle (h limit hlimit)

theorem Setting.allows_of_unlimited {setting : Setting} (h : setting.maxDepth = none)
    (depth : Nat) : setting.Allows depth := by
  intro limit hlimit
  simp [h] at hlimit

namespace State

variable {setting : Setting} {base ws : List Waiting} {s t u : State} {m m' : Machine}
  {result : Except EvalError Value}

/-- Steps lead from a state to another and have not answered `base` on the way. -/
def Proceeds (setting : Setting) (base : List Waiting) (s t : State) : Prop :=
  ∃ n, after setting n s = t ∧ ∀ k < n, ¬ (after setting k s).AnswersTo base

theorem Proceeds.refl (s : State) : Proceeds setting base s s := ⟨0, rfl, by simp⟩

theorem Proceeds.trans (h : Proceeds setting base s t) (h' : Proceeds setting base t u) :
    Proceeds setting base s u := by
  obtain ⟨n, rfl, hbefore⟩ := h
  obtain ⟨k, rfl, hbehind⟩ := h'
  refine ⟨n + k, after_add setting n k s, ?_⟩
  intro j hj
  rcases Nat.lt_or_ge j n with hlt | hge
  · exact hbefore j hlt
  · obtain ⟨i, rfl⟩ := Nat.exists_eq_add_of_le hge
    rw [after_add]
    exact hbehind i (by omega)

theorem Proceeds.next (hopen : ¬ s.AnswersTo base) (h : Proceeds setting base (s.step setting) t) :
    Proceeds setting base s t := by
  have hstep : Proceeds setting base s (s.step setting) := by
    refine ⟨1, rfl, ?_⟩
    intro k hk
    obtain rfl : k = 0 := by omega
    exact hopen
  exact hstep.trans h

theorem Proceeds.finishes (h : Proceeds setting base s t) (hfin : Finishes setting base t result m) :
    Finishes setting base s result m := by
  obtain ⟨n, rfl, hopen⟩ := h
  induction n generalizing s with
  | zero => exact hfin
  | succ n ih =>
    apply Finishes.later (hopen 0 (Nat.succ_pos n))
    exact ih (fun k hk => hopen (k + 1) (by omega)) hfin

theorem Proceeds.endless {s t : State} {base : List Waiting} (h : Proceeds setting base s t)
    (ht : ∀ n, ¬ (State.after setting n t).AnswersTo base) (n : Nat) :
    ¬ (State.after setting n s).AnswersTo base := by
  obtain ⟨k, rfl, hopen⟩ := h
  rcases Nat.lt_or_ge n k with hlt | hge
  · exact hopen n hlt
  · obtain ⟨j, rfl⟩ := Nat.exists_eq_add_of_le hge
    rw [after_add]
    exact ht j

theorem Finishes.proceeds (h : Finishes setting base s result m) :
    Proceeds setting base s ⟨m, .answer result, base⟩ := by
  induction h with
  | now m result => exact .refl _
  | later hopen _ ih => exact ih.next hopen

theorem Finishes.unique {result' : Except EvalError Value} (h : Finishes setting base s result m)
    (h' : Finishes setting base s result' m') : result' = result ∧ m' = m := by
  induction h with
  | now m result =>
    cases h' with
    | now => exact ⟨rfl, rfl⟩
    | later hopen _ => exact absurd ⟨result, rfl, rfl⟩ hopen
  | later hopen _ ih =>
    cases h' with
    | now => exact absurd ⟨result', rfl, rfl⟩ hopen
    | later _ hrest => exact ih hrest

theorem Finishes.exists_answersTo (h : Finishes setting base s result m) :
    ∃ n, (after setting n s).AnswersTo base := by
  obtain ⟨n, hn⟩ := h.exists_after
  exact ⟨n, result, by rw [hn], by rw [hn]⟩

theorem exists_finishes {α : Type} {a : α} (observe : Machine → α) (fuel : Nat)
    (h : (s.run setting fuel).map (fun finished => (finished.1, observe finished.2)) =
      some (result, a)) :
    ∃ m, Finishes setting [] s result m ∧ observe m = a := by
  cases hrun : s.run setting fuel with
  | none => simp [hrun] at h
  | some finished =>
    simp only [hrun, Option.map_some, Option.some.injEq, Prod.mk.injEq] at h
    obtain ⟨rfl, rfl⟩ := h
    exact ⟨finished.2, finishes_of_run hrun, rfl⟩

theorem Finishes.exists_run (h : Finishes setting [] s result m) :
    ∃ fuel, s.run setting fuel = some (result, m) := by
  induction h with
  | now m result => exact ⟨1, rfl⟩
  | @later s result m hopen _ ih =>
    obtain ⟨fuel, hrun⟩ := ih
    have hnone : s.result? = none := by
      rw [Option.eq_none_iff_forall_ne_some]
      intro found hfound
      rw [result?_eq_some_iff.mp hfound] at hopen
      exact hopen ⟨found, rfl, rfl⟩
    exact ⟨fuel + 1, by rw [run, hnone, hrun]⟩

/-- What stands on further work answers `base` at most when it answers that work. -/
theorem not_answersTo_of_above {above : List Waiting} {values : List Value} {depth n : Nat}
    (hs : Within (above ++ base) values depth s)
    (hopen : ∀ k ≤ n, ¬ (after setting k s).AnswersTo (above ++ base)) :
    ¬ (after setting n s).AnswersTo base := by
  rintro ⟨result, hcontrol, hwaiting⟩
  obtain ⟨top, htop⟩ := (within_after hs hopen).suffix
  rw [hwaiting] at htop
  have hlength := congrArg List.length htop
  simp only [List.length_append] at hlength
  have habove : above = [] := List.eq_nil_of_length_eq_zero (by omega)
  subst habove
  exact hopen n (Nat.le_refl n) ⟨result, hcontrol, hwaiting⟩

theorem Proceeds.above {values : List Value} {depth : Nat} (above : List Waiting)
    (h : Proceeds setting (above ++ base) s t) (hs : Within (above ++ base) values depth s) :
    Proceeds setting base s t := by
  obtain ⟨n, ht, hopen⟩ := h
  refine ⟨n, ht, ?_⟩
  intro k hk
  exact not_answersTo_of_above hs fun j hj => hopen j (by omega)

theorem not_answersTo_cons {w : Waiting} {control : Control} :
    ¬ (⟨m, control, w :: base⟩ : State).AnswersTo base := by
  rintro ⟨-, -, hwaiting⟩
  simpa using congrArg List.length hwaiting

theorem not_answersTo_eval {expr : Value} {env : FrameId} :
    ¬ (⟨m, .eval expr env, ws⟩ : State).AnswersTo base := by
  rintro ⟨result, hcontrol, -⟩
  simp at hcontrol

theorem not_answersTo_native {program : Native Outcome} {context : Held} :
    ¬ (⟨m, .native program context, ws⟩ : State).AnswersTo base := by
  rintro ⟨result, hcontrol, -⟩
  simp at hcontrol

theorem finishes_native_value {program : Native Outcome} {context : Held} {v : Value}
    {store : Store} (h : program m.store = .done (.value v) store) :
    Finishes setting ws ⟨m, .native program context, ws⟩ (.ok v) { m with store := store } := by
  apply Finishes.later not_answersTo_native
  simp only [step, runNative, h]
  exact .now _ _

theorem finishes_native_fail {program : Native Outcome} {context : Held} {e : EvalError}
    {store : Store} (h : program m.store = .fail e store) :
    Finishes setting ws ⟨m, .native program context, ws⟩ (.error e) { m with store := store } := by
  apply Finishes.later not_answersTo_native
  simp only [step, runNative, h]
  exact .now _ _

/-- An evaluation above waiting work proceeds to that work being given the answer. -/
theorem Finishes.deliver {w : Waiting} {values : List Value} {depth : Nat}
    (h : Finishes setting (w :: base) s result m) (hs : Within (w :: base) values depth s) :
    Proceeds setting base s (deliver setting m base w result) := by
  have hanswer : Proceeds setting base s ⟨m, .answer result, w :: base⟩ :=
    Proceeds.above [w] h.proceeds hs
  exact hanswer.trans (.next not_answersTo_cons (.refl _))

theorem Finishes.deliver_nest {w : Waiting} {expr : Value} {env : FrameId}
    (h : Finishes setting (w :: base) (nest setting m (w :: base) expr env) result m') :
    Proceeds setting base (nest setting m (w :: base) expr env)
      (State.deliver setting m' base w result) :=
  h.deliver (within_nest (balanced_entry _ m) expr env)

theorem nest_of_allows (h : setting.Allows m.depth) (expr : Value) (env : FrameId) :
    nest setting m ws expr env = nest.enterNested ws expr env m := by
  unfold nest
  split
  · next limit hlimit =>
    have hlt := h limit hlimit
    rw [if_neg (by omega)]
  · rfl

/-- Evaluating `expr` nested in work at this depth gives `v`, on this store, and has no effect. -/
def Settles (setting : Setting) (store : Store) (depth : Nat) (env : FrameId) (expr v : Value) :
    Prop :=
  ∀ (m : Machine) (ws : List Waiting), m.store = store → m.depth = depth →
    ∃ m', Finishes setting ws (nest setting m ws expr env) (.ok v) m' ∧ m.SameEffects m'

/-- The same of an expression in tail position. -/
def Yields (setting : Setting) (store : Store) (depth : Nat) (env : FrameId) (expr v : Value) :
    Prop :=
  ∀ (m : Machine) (ws : List Waiting), m.store = store → m.depth = depth →
    ∃ m', Finishes setting ws ⟨m, .eval expr env, ws⟩ (.ok v) m' ∧ m.SameEffects m'

variable {store : Store} {depth : Nat} {env : FrameId} {expr v : Value}

/-- A nested evaluation that is allowed comes to what its expression comes to one level deeper. -/
theorem Finishes.nest (hallows : setting.Allows m.depth)
    (h : Finishes setting (.nested expr env :: ws)
      ⟨m.deeper, .eval expr env, .nested expr env :: ws⟩ result m') :
    Finishes setting ws (nest setting m ws expr env) result { m' with depth := m'.depth - 1 } := by
  have hwithin : Within (.nested expr env :: ws) m.calls.values.toList (m.depth + 1)
      (nest.enterNested ws expr env m) := .entry
  rw [nest_of_allows hallows]
  exact (h.deliver hwithin).finishes (.now _ _)

theorem Yields.settles (h : Yields setting store (depth + 1) env expr v)
    (hallows : setting.Allows depth) : Settles setting store depth env expr v := by
  intro m ws hstore hdepth
  subst hdepth
  obtain ⟨m', hfin, heffects⟩ := h m.deeper (.nested expr env :: ws) hstore rfl
  exact ⟨_, hfin.nest hallows, ⟨heffects.store, heffects.symbols, heffects.output⟩⟩

theorem yields_symbol {x : Symbol} (h : store.lookup env x = .ok v) :
    Yields setting store depth env (.symbol x) v := by
  intro m ws hstore _
  refine ⟨m.count Counters.countExpression, ?_, ⟨rfl, rfl, rfl⟩⟩
  have hvalue : m.store.lookup env x = .ok v := by rw [hstore, h]
  have hstep : (⟨m, .eval (.symbol x) env, ws⟩ : State).step setting =
      ⟨m.count Counters.countExpression, .answer (.ok v), ws⟩ := by
    rw [← hvalue]
    rfl
  apply Finishes.later not_answersTo_eval
  rw [hstep]
  exact .now _ _

theorem yields_int (n : Int64) : Yields setting store depth env (.int n) (.int n) := by
  intro m ws _ _
  refine ⟨m.count Counters.countExpression, ?_, ⟨rfl, rfl, rfl⟩⟩
  exact .later not_answersTo_eval (.now _ _)

/-- The application in cell `c`, as evaluation finds it. -/
def siteOf (store : Store) (c : CellId) (env : FrameId) : CallSite :=
  ⟨c, store.first c, store.rest c, env⟩

theorem proceeds_operator {c : CellId} {head : Value}
    (h : Finishes setting (.operator (siteOf m.store c env) :: ws)
      (nest setting (m.count Counters.countExpression) (.operator (siteOf m.store c env) :: ws)
        (m.store.first c) env) (.ok head) m') :
    Proceeds setting ws ⟨m, .eval (.pair c) env, ws⟩
      (applyHead setting m' ws (siteOf m.store c env) head) :=
  .next not_answersTo_eval h.deliver_nest

theorem proceeds_application (ws : List Waiting) {c : CellId} {head : Value}
    (hhead : Settles setting store depth env (store.first c) head) (hstore : m.store = store)
    (hdepth : m.depth = depth) :
    ∃ m', m.SameEffects m' ∧ m.SameStack m' ∧
      Proceeds setting ws ⟨m, .eval (.pair c) env, ws⟩
        (applyHead setting m' ws (siteOf store c env) head) := by
  subst hstore
  obtain ⟨m', hfin, heffects⟩ := hhead (m.count Counters.countExpression)
    (.operator (siteOf m.store c env) :: ws) rfl hdepth
  refine ⟨m', ⟨heffects.store, heffects.symbols, heffects.output⟩, ?_, proceeds_operator hfin⟩
  exact hfin.sameStack_nest

theorem proceeds_nextOperand (ws : List Waiting) (b : Builtin) (site : CallSite)
    {exprs args below earlier : List Value} {rest : Value}
    (hsettles : List.Forall₂ (Settles setting store depth site.env) exprs args)
    (hlists : store.Lists rest exprs) (hstore : m.store = store) (hdepth : m.depth = depth)
    (hcalls : m.calls.values.toList = below ++ earlier) :
    ∃ m', m.SameEffects m' ∧ m'.depth = depth ∧ m'.calls.values.toList = below ∧
      Proceeds setting ws (nextOperand setting m ws b site below.length earlier.length rest)
        (applyBuiltin setting m' ws b (earlier ++ args) site.held) := by
  induction hsettles generalizing m rest earlier with
  | nil =>
    obtain rfl := Store.lists_nil_iff.mp hlists
    refine ⟨m.truncateCalls below.length, ⟨rfl, rfl, rfl⟩, hdepth,
      Machine.toList_truncateCalls hcalls, ?_⟩
    unfold nextOperand
    simp only [Machine.popCalls_append hcalls, List.append_nil]
    exact .refl _
  | @cons expr v exprs args hsettle _ ih =>
    obtain ⟨c, rfl, rfl, hbehind⟩ := Store.lists_cons_iff.mp hlists
    obtain ⟨m', hfin, heffects⟩ :=
      hsettle m (.operand b site below.length earlier.length c :: ws) hstore hdepth
    obtain ⟨hvalues, hdepth'⟩ := hfin.sameStack_nest
    have hcalls' : (m'.pushCall v).calls.values.toList = below ++ (earlier ++ [v]) := by
      rw [Machine.toList_pushCall, hvalues, hcalls, List.append_assoc]
    have hstore' : m'.store = store := heffects.store.trans hstore
    obtain ⟨m'', heffects', hdepth'', hbelow, hproceeds⟩ :=
      ih (m := m'.pushCall v) hbehind hstore' (hdepth'.trans hdepth) hcalls'
    refine ⟨m'', ⟨heffects'.store.trans heffects.store, heffects'.symbols.trans heffects.symbols,
      heffects'.output.trans heffects.output⟩, hdepth'', hbelow, ?_⟩
    simp only [nextOperand, hstore]
    refine hfin.deliver_nest.trans ?_
    simp only [List.length_append, List.length_singleton, List.append_assoc,
      List.singleton_append] at hproceeds
    simp only [State.deliver, show (m'.pushCall v).store.rest c = store.rest c from
      congrArg (fun store : Store => store.rest c) hstore']
    exact hproceeds

theorem proceeds_nextArgument (ws : List Waiting) (c : ClosureId) (site : CallSite)
    (reversed : List Value) {exprs args : List Value} {rest : Value}
    (hsettles : List.Forall₂ (Settles setting store depth site.env) exprs args)
    (hlists : store.Lists rest exprs) (hstore : m.store = store) (hdepth : m.depth = depth) :
    ∃ m', m.SameEffects m' ∧ m.SameStack m' ∧
      Proceeds setting ws (nextArgument setting m ws c site reversed rest)
        (applyClosure setting m' ws c (reversed.reverse ++ args)
          (site.held.append ⟨[.closure c], []⟩) true) := by
  induction hsettles generalizing m rest reversed with
  | nil =>
    obtain rfl := Store.lists_nil_iff.mp hlists
    refine ⟨m, .refl m, ⟨rfl, rfl⟩, ?_⟩
    rw [List.append_nil]
    exact .refl _
  | @cons expr v exprs args hsettle _ ih =>
    obtain ⟨p, rfl, rfl, hbehind⟩ := Store.lists_cons_iff.mp hlists
    obtain ⟨m', hfin, heffects⟩ :=
      hsettle m (.argument c site (store.rest p) reversed :: ws) hstore hdepth
    have hsame := hfin.sameStack_nest
    obtain ⟨m'', heffects', hsame', hproceeds⟩ := ih (v :: reversed) hbehind
      (heffects.store.trans hstore) (hsame.2.trans hdepth)
    refine ⟨m'', heffects.trans heffects', hsame.trans hsame', ?_⟩
    simp only [List.reverse_cons, List.append_assoc, List.singleton_append] at hproceeds
    simp only [nextArgument, hstore]
    exact hfin.deliver_nest.trans hproceeds

theorem yields_builtin {c : CellId} {b : Builtin} {exprs args : List Value}
    (hhead : Settles setting store depth env (store.first c) (.builtin b))
    (hlists : store.Lists (store.rest c) exprs)
    (hsettles : List.Forall₂ (Settles setting store depth env) exprs args)
    (harity : b.arity.accepts args.length = true)
    (hvalue : setting.library.procedure b args store = .done v store) :
    Yields setting store depth env (.pair c) v := by
  intro m ws hstore hdepth
  obtain ⟨m', heffects, hsame, hhead⟩ := proceeds_application ws hhead hstore hdepth
  have hstore' := heffects.store.trans hstore
  obtain ⟨m'', heffects', -, -, hoperands⟩ := proceeds_nextOperand ws b
    (siteOf store c env) hsettles hlists hstore' (hsame.2.trans hdepth)
    (List.append_nil m'.calls.values.toList).symm
  simp only [Array.length_toList, List.length_nil, List.nil_append] at hoperands
  have hcall : Finishes setting ws
      (applyBuiltin setting m'' ws b args (siteOf store c env).held) (.ok v)
      (m''.count Counters.countBuiltinCall) := by
    have hchecked : b.arity.check b.name args.length = .ok () := by simp [Arity.check, harity]
    have hvalue' : setting.library.procedure b args m''.store = .done v m''.store := by
      rw [heffects'.store, hstore', hvalue]
    simp only [applyBuiltin, hchecked]
    apply finishes_native_value (m := m''.count Counters.countBuiltinCall)
    simp only [Machine.count, bind, hvalue', Interaction.bind, pure]
  refine ⟨_, hhead.finishes (hoperands.finishes hcall), ?_⟩
  exact heffects.trans ⟨heffects'.store, heffects'.symbols, heffects'.output⟩

/-- The expression is `v` quoted: `(quote v)`, where `quote` names the form of that name. -/
def Quotes (library : Library) (store : Store) (env : FrameId) (expr v : Value) : Prop :=
  ∃ c x f, expr = .pair c ∧ store.first c = .symbol x ∧ store.lookup env x = .ok (.form f) ∧
    library.form f = Forms.quote ∧ store.Lists (store.rest c) [v]

theorem Quotes.yields (h : Quotes setting.library store env expr v)
    (hallows : setting.Allows depth) : Yields setting store depth env expr v := by
  obtain ⟨c, x, f, rfl, hfirst, hform, hquote, hlists⟩ := h
  intro m ws hstore hdepth
  have hhead : Settles setting store depth env (store.first c) (.form f) := by
    rw [hfirst]
    exact (yields_symbol hform).settles hallows
  obtain ⟨m', heffects, -, hproceeds⟩ := proceeds_application ws hhead hstore hdepth
  have hstore' := heffects.store.trans hstore
  -- The cell of the quotation itself is there, so following its operands has steps enough.
  have hspine : store.spine (store.rest c) = .proper [v] := by
    apply Store.spineWithin_of_lists hlists
    apply Nat.succ_lt_succ
    apply Nat.pos_of_ne_zero
    intro hempty
    simp [Store.first, Store.cell, Array.getD, hempty] at hfirst
  have hprogram : Forms.quote (store.rest c) env m'.store = .done (.value v) m'.store := by
    simp only [hstore', Forms.quote, Forms.operandList, Native.elements, Native.read, bind, hspine,
      Interaction.bind, pure]
  rw [← hquote] at hprogram
  refine ⟨_, hproceeds.finishes (finishes_native_value hprogram), ?_⟩
  exact ⟨heffects.store, heffects.symbols, heffects.output⟩

end State
end MiniScheme
