import MiniScheme.Proofs.Machine.Run
/-! # Call stack and depth

All native procedures share one call stack. What waits above the point where an evaluation was
started accounts for everything above the values that were on the stack at that point: an unfinished
application of a native procedure for the operands it has pushed, a nested evaluation for one level
of depth. Every step keeps these accounts, so an evaluation that finishes, in whatever way, leaves
stack and depth as they were, and a native procedure is given the values of its own operands.
-/
namespace MiniScheme

namespace Machine

theorem popCalls_append {m : Machine} {below args : List Value}
    (h : m.calls.values.toList = below ++ args) :
    m.popCalls args.length = (.ok args, m.truncateCalls below.length) := by
  unfold popCalls
  dsimp only
  rw [CallStack.popFrame_append h]
  rfl

theorem toList_truncateCalls {m : Machine} {below args : List Value}
    (h : m.calls.values.toList = below ++ args) :
    (m.truncateCalls below.length).calls.values.toList = below := by
  change (m.calls.truncate below.length).values.toList = below
  rw [CallStack.toList_truncate, h, List.take_left]

def SameStack (m m' : Machine) : Prop :=
  m'.calls.values = m.calls.values ∧ m'.depth = m.depth

theorem toList_pushCall (m : Machine) (v : Value) :
    (m.pushCall v).calls.values.toList = m.calls.values.toList ++ [v] :=
  CallStack.toList_push m.calls v

end Machine

/-- The levels of depth that waiting work stands for. -/
def Waiting.levels : Waiting → Nat
  | nested _ _ => 1
  | _ => 0

/-- Waiting work has pushed `args` onto a call stack of `below` values. -/
def Waiting.Pushed : Waiting → (below : Nat) → (args : List Value) → Prop
  | operand _ _ base count _, below, args => base = below ∧ count = args.length
  | _, _, args => args = []

namespace State

/-- Waiting work above `base` accounts for a call stack and a depth, where `values` and `depth` were
those at `base`. -/
inductive Accounts (base : List Waiting) (values : List Value) (depth : Nat) :
    List Waiting → List Value → Nat → Prop
  | entry : Accounts base values depth base values depth
  | above {ws : List Waiting} {below : List Value} {d : Nat} (w : Waiting) (args : List Value)
    (rest : Accounts base values depth ws below d) (pushed : w.Pushed below.length args) :
    Accounts base values depth (w :: ws) (below ++ args) (d + w.levels)

/-- The accounts of a machine with this work waiting. -/
def Balanced (base : List Waiting) (values : List Value) (depth : Nat) (ws : List Waiting)
    (m : Machine) : Prop :=
  Accounts base values depth ws m.calls.values.toList m.depth

def Within (base : List Waiting) (values : List Value) (depth : Nat) (s : State) : Prop :=
  Balanced base values depth s.waiting s.machine

variable {base ws : List Waiting} {values : List Value} {depth : Nat} {setting : Setting}
  {m : Machine}

theorem balanced_entry (base : List Waiting) (m : Machine) :
    Balanced base m.calls.values.toList m.depth base m := .entry

theorem Accounts.suffix {vs : List Value} {d : Nat} (h : Accounts base values depth ws vs d) :
    ∃ above, ws = above ++ base := by
  induction h with
  | entry => exact ⟨[], rfl⟩
  | above w args _ _ ih =>
    obtain ⟨above, rfl⟩ := ih
    exact ⟨w :: above, rfl⟩

theorem Accounts.eq_of_base {vs : List Value} {d : Nat}
    (h : Accounts base values depth ws vs d) (hws : ws = base) : vs = values ∧ d = depth := by
  cases h with
  | entry => exact ⟨rfl, rfl⟩
  | above w args rest _ =>
    obtain ⟨above, habove⟩ := rest.suffix
    have hlen := congrArg List.length hws
    rw [habove] at hlen
    simp only [List.length_cons, List.length_append] at hlen
    omega

theorem Balanced.wait (h : Balanced base values depth ws m) (w : Waiting)
    (hpushed : w.Pushed m.calls.values.toList.length []) (hlevels : w.levels = 0) :
    Balanced base values depth (w :: ws) m := by
  have habove := Accounts.above w [] h hpushed
  rwa [List.append_nil, hlevels] at habove

theorem within_nest (h : Balanced base values depth ws m) (expr : Value) (env : FrameId) :
    Within base values depth (nest setting m ws expr env) := by
  have henter : Within base values depth (nest.enterNested ws expr env m) := by
    have habove := Accounts.above (.nested expr env) [] h rfl
    rwa [List.append_nil] at habove
  unfold nest
  split
  · split
    · exact h
    · exact henter
  · exact henter

theorem within_applyBuiltin (h : Balanced base values depth ws m) (b : Builtin)
    (args : List Value) (context : Held) :
    Within base values depth (applyBuiltin setting m ws b args context) := by
  unfold applyBuiltin
  split
  · exact h
  · exact h

private theorem within_nextBody (h : Balanced base values depth ws m) (frame : FrameId)
    (context : Held) (inPlace : Bool) (body : List Value) :
    Within base values depth (nextBody setting m ws frame context inPlace body) := by
  unfold nextBody
  split
  · exact h
  · split
    · exact h
    · exact within_nest h _ _
  · apply within_nest
    exact h.wait _ rfl rfl

theorem within_applyClosure (h : Balanced base values depth ws m) (c : ClosureId)
    (args : List Value) (context : Held) (inPlace : Bool) :
    Within base values depth (applyClosure setting m ws c args context inPlace) := by
  have hbind : Balanced base values depth ws
      ((m.count Counters.countProcedureCall).bindArguments (m.store.closure c) args).2 := h
  unfold applyClosure
  dsimp only
  split
  · next heq => rw [heq] at hbind; exact hbind
  · next heq =>
    rw [heq] at hbind
    split
    · exact hbind
    · exact within_nextBody hbind _ _ _ _

private theorem within_nextArgument (h : Balanced base values depth ws m) (c : ClosureId)
    (site : CallSite) (reversed : List Value) (rest : Value) :
    Within base values depth (nextArgument setting m ws c site reversed rest) := by
  unfold nextArgument
  split
  · exact within_applyClosure h _ _ _ _
  · apply within_nest
    exact h.wait _ rfl rfl
  · exact h

private theorem within_call (h : Balanced base values depth ws m) (procedure : Value)
    (args : List Value) : Within base values depth (call setting m ws procedure args) := by
  unfold call
  split
  · exact within_applyBuiltin h _ _ _
  · exact within_applyClosure h _ _ _ _
  · exact h

private theorem within_evalExpr (h : Balanced base values depth ws m) (expr : Value)
    (env : FrameId) :
    Within base values depth (evalExpr setting m ws expr env) := by
  unfold evalExpr
  split
  · exact h
  · apply within_nest
    exact h.wait _ rfl rfl
  · exact h

theorem balanced_truncateCalls {below args : List Value}
    (h : Accounts base values depth ws below m.depth)
    (hcalls : m.calls.values.toList = below ++ args) :
    Balanced base values depth ws (m.truncateCalls below.length) := by
  unfold Balanced
  rw [Machine.toList_truncateCalls hcalls]
  exact h

private theorem within_nextOperand {below args : List Value}
    (h : Accounts base values depth ws below m.depth)
    (hcalls : m.calls.values.toList = below ++ args) (b : Builtin) (site : CallSite)
    (rest : Value) :
    Within base values depth (nextOperand setting m ws b site below.length args.length rest) := by
  have htruncated := balanced_truncateCalls h hcalls
  unfold nextOperand
  split
  · rw [Machine.popCalls_append hcalls]
    exact within_applyBuiltin htruncated _ _ _
  · next c =>
    apply within_nest
    have habove := Accounts.above (.operand b site below.length args.length c) args h ⟨rfl, rfl⟩
    rw [← hcalls] at habove
    exact habove
  · exact htruncated

private theorem within_applyHead (h : Balanced base values depth ws m) (site : CallSite)
    (head : Value) :
    Within base values depth (applyHead setting m ws site head) := by
  unfold applyHead
  split
  · next b =>
    have hnext : Within base values depth (nextOperand setting m ws b site
        m.calls.values.toList.length 0 site.operands) :=
      within_nextOperand h (List.append_nil _).symm b site site.operands
    rwa [Array.length_toList] at hnext
  · exact h
  · exact within_nextArgument h _ _ _ _
  · exact h

theorem within_deliver {w : Waiting} {below args : List Value} {d : Nat}
    (h : Accounts base values depth ws below d) (hpushed : w.Pushed below.length args)
    (hcalls : m.calls.values.toList = below ++ args) (hdepth : m.depth = d + w.levels)
    (result : Except EvalError Value) :
    Within base values depth (deliver setting m ws w result) := by
  have hplain (hargs : args = []) (hlevels : w.levels = 0) : Balanced base values depth ws m := by
    unfold Balanced
    rw [hcalls, hargs, List.append_nil, hdepth, hlevels]
    exact h
  cases w with
  | nested expr env =>
    have hargs : args = [] := hpushed
    change Accounts base values depth ws m.calls.values.toList (m.depth - 1)
    rw [hcalls, hargs, List.append_nil, hdepth]
    exact h
  | native resume context held => exact hplain hpushed rfl
  | operator site =>
    have hm := hplain hpushed rfl
    cases result with
    | ok head => exact within_applyHead hm _ _
    | error e => exact hm
  | operand b site bottom count current =>
    obtain ⟨rfl, rfl⟩ := hpushed
    rw [← show m.depth = d from hdepth] at h
    cases result with
    | ok v =>
      have hpush : (m.pushCall v).calls.values.toList = below ++ (args ++ [v]) := by
        rw [Machine.toList_pushCall, hcalls, List.append_assoc]
      have hnext : Within base values depth (nextOperand setting (m.pushCall v) ws b site
          below.length (args ++ [v]).length (m.store.rest current)) :=
        within_nextOperand (m := m.pushCall v) h hpush b site (m.store.rest current)
      rwa [List.length_append] at hnext
    | error e => exact balanced_truncateCalls h hcalls
  | argument c site rest reversed =>
    have hm := hplain hpushed rfl
    cases result with
    | ok v => exact within_nextArgument hm _ _ _ _
    | error e => exact hm
  | body rest frame context inPlace =>
    have hm := hplain hpushed rfl
    cases result with
    | ok v => exact within_nextBody hm _ _ _ _
    | error e => exact hm

private theorem within_runNative (h : Balanced base values depth ws m) (program : Native Outcome)
    (context : Held) : Within base values depth (runNative setting m ws program context) := by
  unfold runNative
  dsimp only
  split
  · exact h
  · exact h
  · exact h
  · exact h
  · next held store resume _ =>
    apply within_nest
    exact Balanced.wait (m := { m with store := store }) h _ rfl rfl
  · next held store resume _ =>
    apply within_call
    exact Balanced.wait (m := { m with store := store }) h _ rfl rfl
  · next name store resume _ =>
    have hintern : Balanced base values depth ws ({ m with store := store }.intern name).2 := by
      unfold Machine.intern
      dsimp only
      split <;> exact h
    exact hintern
  · exact h
  · exact h

/-- Every step of an unfinished evaluation keeps the accounts. -/
theorem within_step {s : State} (h : Within base values depth s) (hopen : ¬ s.AnswersTo base) :
    Within base values depth (s.step setting) := by
  obtain ⟨m, control, ws⟩ := s
  cases control with
  | eval expr env => exact within_evalExpr (m := m.count Counters.countExpression) h _ _
  | native program context => exact within_runNative h _ _
  | answer result =>
    have haccounts : Accounts base values depth ws m.calls.values.toList m.depth := h
    generalize hvs : m.calls.values.toList = vs at haccounts
    generalize hd : m.depth = d at haccounts
    cases haccounts with
    | entry => exact absurd ⟨result, rfl, rfl⟩ hopen
    | above w args rest hpushed => exact within_deliver rest hpushed hvs hd result

/-- A finished evaluation leaves call stack and depth as they were where it started. -/
theorem Finishes.balance {s : State} {result : Except EvalError Value}
    (hfin : Finishes setting base s result m) (h : Within base values depth s) :
    m.calls.values.toList = values ∧ m.depth = depth := by
  induction hfin with
  | now m result => exact h.eq_of_base rfl
  | later hopen _ ih => exact ih (within_step h hopen)

theorem within_after {s : State} {n : Nat} (h : Within base values depth s)
    (hopen : ∀ k ≤ n, ¬ (after setting k s).AnswersTo base) :
    Within base values depth (after setting n s) := by
  induction n generalizing s with
  | zero => exact h
  | succ n ih =>
    exact ih (within_step h (hopen 0 (Nat.zero_le _))) (fun k hk => hopen (k + 1) (by omega))

theorem Finishes.sameStack_nest {expr : Value} {env : FrameId} {m' : Machine}
    {result : Except EvalError Value}
    (h : Finishes setting ws (nest setting m ws expr env) result m') : m.SameStack m' := by
  obtain ⟨hvalues, hdepth⟩ := h.balance (within_nest (balanced_entry ws m) expr env)
  exact ⟨Array.toList_inj.mp hvalues, hdepth⟩

theorem Finishes.sameStack_call {procedure : Value} {args : List Value} {m' : Machine}
    {result : Except EvalError Value}
    (h : Finishes setting ws (call setting m ws procedure args) result m') : m.SameStack m' := by
  obtain ⟨hvalues, hdepth⟩ := h.balance (within_call (balanced_entry ws m) procedure args)
  exact ⟨Array.toList_inj.mp hvalues, hdepth⟩

/-- A nested evaluation up to any moment: the work it was started for still waits, or has been handed
the result before, stack and depth as they were. -/
theorem nest_progress (setting : Setting) (n : Nat) (m : Machine) (w : Waiting) (ws : List Waiting)
    (expr : Value) (env : FrameId) :
    let s := nest setting m (w :: ws) expr env
    (∃ above, (after setting n s).waiting = above ++ w :: ws) ∨
      ∃ k < n, ∃ result m', Finishes setting (w :: ws) s result m' ∧ m.SameStack m' ∧
        after setting (k + 1) s = deliver setting m' ws w result := by
  intro s
  rcases finishes_or_open setting (w :: ws) n s with ⟨k, hk, result, m', hfin, hafter⟩ | hopen
  · rcases Nat.lt_or_eq_of_le hk with hlt | rfl
    · refine .inr ⟨k, hlt, result, m', hfin, hfin.sameStack_nest, ?_⟩
      rw [after_succ, hafter]
      rfl
    · exact .inl ⟨[], by rw [hafter, List.nil_append]⟩
  · exact .inl (within_after (within_nest (balanced_entry _ m) expr env) hopen).suffix

/-- What evaluating the operands `rest` of a native procedure comes to, one nested evaluation after
the other from machine to machine, when `count` operands have been pushed above the oldest `bottom`
values: the values in the order of the operands, or the first error. -/
inductive Operands (setting : Setting) (ws : List Waiting) (b : Builtin) (site : CallSite)
    (bottom : Nat) :
    (count : Nat) → Machine → (rest : Value) → Except EvalError (List Value) → Machine → Prop
  | done (count : Nat) (m : Machine) : Operands setting ws b site bottom count m .nil (.ok []) m
  | improper (count : Nat) (m : Machine) (rest : Value) (hnil : rest ≠ .nil)
    (hpair : rest.isPair = false) :
    Operands setting ws b site bottom count m rest
      (.error (improperOperands m.store site.operands)) m
  | failed (count : Nat) (m : Machine) (c : CellId) (e : EvalError) (m' : Machine)
    (operand : Finishes setting (.operand b site bottom count c :: ws)
      (nest setting m (.operand b site bottom count c :: ws) (m.store.first c) site.env)
      (.error e) m') :
    Operands setting ws b site bottom count m (.pair c) (.error e) m'
  | next (count : Nat) (m : Machine) (c : CellId) (v : Value) (m' m'' : Machine)
    (outcome : Except EvalError (List Value))
    (operand : Finishes setting (.operand b site bottom count c :: ws)
      (nest setting m (.operand b site bottom count c :: ws) (m.store.first c) site.env)
      (.ok v) m')
    (others : Operands setting ws b site bottom (count + 1) (m'.pushCall v) (m'.store.rest c)
      outcome m'') :
    Operands setting ws b site bottom count m (.pair c) (outcome.map (v :: ·)) m''

/-- How an application goes on once its operands are evaluated: the native procedure is given
`earlier` and the values, or the error is handed on. -/
def afterOperands (setting : Setting) (ws : List Waiting) (b : Builtin) (site : CallSite)
    (m : Machine) (earlier : List Value) : Except EvalError (List Value) → State
  | .ok args => applyBuiltin setting m ws b (earlier ++ args) site.held
  | .error e => fail m ws e

private theorem afterOperands_map (b : Builtin) (site : CallSite) (m : Machine)
    (earlier : List Value) (v : Value) (outcome : Except EvalError (List Value)) :
    afterOperands setting ws b site m earlier (outcome.map (v :: ·)) =
      afterOperands setting ws b site m (earlier ++ [v]) outcome := by
  cases outcome with
  | error e => rfl
  | ok args => simp [afterOperands, Except.map]

def AtOperand (ws : List Waiting) (b : Builtin) (site : CallSite) (bottom : Nat) (s : State) :
    Prop :=
  ∃ above count c, s.waiting = above ++ .operand b site bottom count c :: ws

private theorem nextOperand_improper {b : Builtin} {site : CallSite} {bottom count : Nat}
    {rest : Value} (hnil : rest ≠ .nil) (hpair : rest.isPair = false) :
    nextOperand setting m ws b site bottom count rest =
      fail (m.truncateCalls bottom) ws (improperOperands m.store site.operands) := by
  cases rest with
  | nil => exact absurd rfl hnil
  | pair c => simp [Value.isPair] at hpair
  | _ => rfl

theorem operands_progress (setting : Setting) (ws : List Waiting) (n : Nat)
    {below args : List Value}
    (hcalls : m.calls.values.toList = below ++ args) (b : Builtin) (site : CallSite)
    (rest : Value) :
    let s := nextOperand setting m ws b site below.length args.length rest
    AtOperand ws b site below.length (after setting n s) ∨
      ∃ k ≤ n, ∃ outcome m',
        Operands setting ws b site below.length args.length m rest outcome m' ∧
        m'.depth = m.depth ∧
        (∃ pushed, m'.calls.values.toList = below ++ (args ++ pushed) ∧
          ∀ vs, outcome = .ok vs → pushed = vs) ∧
        after setting k s =
          afterOperands setting ws b site (m'.truncateCalls below.length) args outcome := by
  induction n using Nat.strongRecOn generalizing m args rest with
  | ind n ih =>
    intro s
    have hnone : m.calls.values.toList = below ++ (args ++ []) := by rw [List.append_nil, hcalls]
    by_cases hnil : rest = .nil
    · subst hnil
      refine .inr ⟨0, Nat.zero_le _, .ok [], m, .done _ _, rfl, ⟨[], hnone, ?_⟩, ?_⟩
      · rintro vs ⟨⟩
        rfl
      · change nextOperand setting m ws b site below.length args.length .nil = _
        rw [nextOperand, Machine.popCalls_append hcalls, afterOperands, List.append_nil]
    cases hpair : rest.isPair with
    | false =>
      refine .inr ⟨0, Nat.zero_le _, _, m, .improper _ m rest hnil hpair, rfl, ⟨[], hnone, ?_⟩, ?_⟩
      · rintro vs ⟨⟩
      · exact nextOperand_improper hnil hpair
    | true =>
      obtain ⟨c, rfl⟩ := Value.isPair_eq_true_iff.mp hpair
      rcases nest_progress setting n m (.operand b site below.length args.length c) ws
          (m.store.first c) site.env with
        ⟨above, habove⟩ | ⟨k, hk, result, m', hfin, hsame, hnext⟩
      · exact .inl ⟨above, args.length, c, habove⟩
      change after setting (k + 1) s = _ at hnext
      cases result with
      | error e =>
        refine .inr ⟨k + 1, hk, .error e, m', .failed _ _ _ _ _ hfin, hsame.2,
          ⟨[], by rw [hsame.1, hnone], ?_⟩, hnext⟩
        rintro vs ⟨⟩
      | ok v =>
        have hpush : (m'.pushCall v).calls.values.toList = below ++ (args ++ [v]) := by
          rw [Machine.toList_pushCall, hsame.1, hcalls, List.append_assoc]
        have hmore := ih (n - (k + 1)) (by omega) hpush (m'.store.rest c)
        rw [List.length_append, List.length_singleton] at hmore
        rcases hmore with hat | ⟨j, hj, outcome, m'', hops, hdepth, ⟨pushed, hpushed, hok⟩, hend⟩
        · left
          rw [show n = k + 1 + (n - (k + 1)) by omega, after_add, hnext]
          exact hat
        · refine .inr ⟨k + 1 + j, by omega, outcome.map (v :: ·), m'',
            .next _ _ _ _ _ _ _ hfin hops, hdepth.trans hsame.2, ⟨v :: pushed, ?_, ?_⟩, ?_⟩
          · rw [hpushed, List.append_assoc, List.singleton_append]
          · intro vs hvs
            cases outcome with
            | error e => simp [Except.map] at hvs
            | ok us =>
              rw [hok us rfl]
              simpa [Except.map] using hvs
          · rw [after_add, hnext, afterOperands_map]
            exact hend

/-- The application of a native procedure, from its operator on: at every moment its operands are
still being evaluated, or its body has been given their values, or one of them has failed. -/
theorem builtin_application (m : Machine) (ws : List Waiting) (site : CallSite) (b : Builtin)
    (n : Nat) :
    let s := applyHead setting m ws site (.builtin b)
    AtOperand ws b site m.calls.size (after setting n s) ∨
      (∃ k ≤ n, ∃ args m' m'',
        Operands setting ws b site m.calls.size 0 m site.operands (.ok args) m' ∧
        m'.popCalls args.length = (.ok args, m'') ∧ m.SameStack m'' ∧
        after setting k s = applyBuiltin setting m'' ws b args site.held) ∨
      ∃ k ≤ n, ∃ e m' m'',
        Operands setting ws b site m.calls.size 0 m site.operands (.error e) m' ∧
        m.SameStack m'' ∧ after setting k s = fail m'' ws e := by
  intro s
  have hprogress := operands_progress setting ws n (List.append_nil m.calls.values.toList).symm b
    site site.operands
  simp only [Array.length_toList, List.length_nil, List.nil_append] at hprogress
  rcases hprogress with hat | ⟨k, hk, outcome, m', hops, hdepth, ⟨pushed, hcalls, hok⟩, hend⟩
  · exact .inl hat
  have hsame : m.SameStack (m'.truncateCalls m.calls.size) := by
    refine ⟨?_, hdepth⟩
    rw [← Array.toList_inj]
    exact Machine.toList_truncateCalls hcalls
  right
  cases outcome with
  | ok args =>
    obtain rfl := hok args rfl
    exact .inl ⟨k, hk, pushed, m', _, hops, Machine.popCalls_append hcalls, hsame, hend⟩
  | error e => exact .inr ⟨k, hk, e, m', _, hops, hsame, hend⟩

end State

namespace Interpreter

open State (Finishes)

/-- Putting back stack and depth after a failed evaluation changes nothing. -/
theorem evaluate_eq_runFrom (fuel : Nat) (i : Interpreter) (caller : Held) (expr : Value)
    (env : FrameId) :
    i.evaluate fuel caller expr env =
      i.runFrom fuel caller (fun setting m => State.nest setting m [] expr env) := by
  unfold evaluate
  dsimp only
  split
  · next e j hrun =>
    rw [hrun]
    obtain ⟨hvalues, hdepth⟩ := (runFrom_eq_some hrun).1.sameStack_nest
    have hcalls : j.machine.calls.truncate i.machine.calls.size = j.machine.calls :=
      CallStack.truncate_of_le (by rw [hvalues]; exact Nat.le_refl _)
    change some (Except.error e, { j with machine := { j.machine with
      calls := j.machine.calls.truncate i.machine.calls.size, depth := i.machine.depth } }) = _
    rw [hcalls, ← hdepth]
  · rfl

end Interpreter

/-- Whatever evaluation does and however it ends, the shared call stack and the depth are as they
were; a native procedure gets the values of its own operands in order, taken off the stack without
fail; and nothing is left for `evaluate` to put back. -/
theorem evaluation_keeps_stack_discipline :
    (∀ setting m ws expr env result m',
      State.Finishes setting ws (State.nest setting m ws expr env) result m' → m.SameStack m') ∧
    (∀ setting m ws procedure args result m',
      State.Finishes setting ws (State.call setting m ws procedure args) result m' →
        m.SameStack m') ∧
    (∀ setting m ws site b n,
      let s := State.applyHead setting m ws site (.builtin b)
      State.AtOperand ws b site m.calls.size (State.after setting n s) ∨
        (∃ k ≤ n, ∃ args m' m'',
          State.Operands setting ws b site m.calls.size 0 m site.operands (.ok args) m' ∧
          m'.popCalls args.length = (.ok args, m'') ∧ m.SameStack m'' ∧
          State.after setting k s = State.applyBuiltin setting m'' ws b args site.held) ∨
        ∃ k ≤ n, ∃ e m' m'',
          State.Operands setting ws b site m.calls.size 0 m site.operands (.error e) m' ∧
          m.SameStack m'' ∧ State.after setting k s = State.fail m'' ws e) ∧
    (∀ (i j : Interpreter) fuel caller expr env result,
      i.evaluate fuel caller expr env = some (result, j) → i.machine.SameStack j.machine) ∧
    (∀ (i j : Interpreter) fuel procedure args result,
      i.call fuel procedure args = some (result, j) → i.machine.SameStack j.machine) ∧
    (∀ (i : Interpreter) fuel caller expr env,
      i.evaluate fuel caller expr env =
        i.runFrom fuel caller (fun setting m => State.nest setting m [] expr env)) := by
  refine ⟨?_, ?_, ?_, ?_, ?_, ?_⟩
  · intro setting m ws expr env result m' h
    exact h.sameStack_nest
  · intro setting m ws procedure args result m' h
    exact h.sameStack_call
  · intro setting m ws site b n
    exact State.builtin_application m ws site b n
  · intro i j fuel caller expr env result h
    rw [Interpreter.evaluate_eq_runFrom] at h
    exact (Interpreter.runFrom_eq_some h).1.sameStack_nest
  · intro i j fuel procedure args result h
    exact (Interpreter.runFrom_eq_some h).1.sameStack_call
  · intro i fuel caller expr env
    exact Interpreter.evaluate_eq_runFrom fuel i caller expr env

/-- About to evaluate `(f 1 x)` with `x` unbound, inside other work that has pushed a value. -/
def unboundOperand : Interpreter where
  machine :=
    { store :=
        { cells := #[⟨.builtin ⟨0, "f", .atLeast 0⟩, .pair ⟨1⟩⟩, ⟨.int 1, .pair ⟨2⟩⟩,
            ⟨.symbol ⟨0, "x"⟩, .nil⟩]
          frames := #[⟨[], none⟩]
          closures := #[] }
      symbols := SymbolTable.empty
      calls := ⟨#[.int 7], 1⟩
      depth := 3
      counters := some {}
      output := .silent }
  library := { procedures := #[Native.list] }
  maxDepth := some 10
  global := ⟨0⟩

/-- The second operand fails after the first was pushed. -/
theorem stack_kept_by_unbound_operand :
    ∃ j, unboundOperand.evaluate 20 {} (.pair ⟨0⟩) ⟨0⟩ =
        some (.error (.unboundVariable "x"), j) ∧
      j.machine.calls.peak = 2 ∧ unboundOperand.machine.SameStack j.machine :=
  ⟨_, rfl, rfl, evaluation_keeps_stack_discipline.2.2.2.1 _ _ 20 {} (.pair ⟨0⟩) ⟨0⟩
    (.error (.unboundVariable "x")) rfl⟩

end MiniScheme
