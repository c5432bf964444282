import MiniScheme.Proofs.Machine.Run
/-! # Metering

A machine that keeps counters knows some things twice: its call stack has a peak and the counters
have one, its depth has a limit and the counters have the deepest nesting so far. Every rule of the
machine keeps the two in agreement. What a step counts beside depth and stack can be told from the
state that it is taken from, except that it may call a procedure; and since every form that is
entered was the operator of an application, whose evaluation has counted one expression, at no
moment more forms have been entered than expressions evaluated.
-/
namespace MiniScheme

/-- At most one call has been counted. -/
inductive Counters.Called (c : Counters) : Counters → Prop
  | no : Called c c
  | builtin : Called c c.countBuiltinCall
  | procedure : Called c c.countProcedureCall

namespace CallStack

private theorem peak_popFrame (s : CallStack) (n : Nat) : (s.popFrame n).2.peak = s.peak := by
  unfold popFrame
  split <;> rfl

private theorem peak_push (s : CallStack) (v : Value) :
    (s.push v).peak = max s.peak (s.push v).size := rfl

end CallStack

namespace Machine

/-- The machine has counted `c`, and the counters agree with its call stack on the peak, with its
depth and with the limit. -/
structure Metered (limit : Option Nat) (c : Counters) (m : Machine) : Prop where
  counters : m.counters = some c
  peak : c.peakCallStack = m.calls.peak
  depth : m.depth ≤ c.maxDepth
  limited : ∀ d, limit = some d → c.maxDepth ≤ d

namespace Metered

variable {limit : Option Nat} {c : Counters} {m : Machine}

theorem recordDepth_eq (h : m.Metered limit c) : c.recordDepth m.depth = c := by
  rw [Counters.recordDepth, Nat.max_eq_left h.depth]

theorem congr (h : m.Metered limit c) {m' : Machine} (hcounters : m'.counters = m.counters)
    (hpeak : m'.calls.peak = m.calls.peak) (hdepth : m'.depth = m.depth) :
    m'.Metered limit c where
  counters := hcounters.trans h.counters
  peak := h.peak.trans hpeak.symm
  depth := by rw [hdepth]; exact h.depth
  limited := h.limited

theorem count (h : m.Metered limit c) {event : Counters → Counters}
    (hpeak : (event c).peakCallStack = c.peakCallStack) (hdepth : (event c).maxDepth = c.maxDepth) :
    (m.count event).Metered limit (event c) where
  counters := congrArg (Option.map event) h.counters
  peak := hpeak.trans h.peak
  depth := by rw [hdepth]; exact h.depth
  limited d hd := by rw [hdepth]; exact h.limited d hd

private theorem pushCall (h : m.Metered limit c) (v : Value) :
    (m.pushCall v).Metered limit (c.recordStack (m.calls.push v).size) where
  counters :=
    congrArg (Option.map fun c : Counters => c.recordStack (m.calls.push v).size) h.counters
  peak := by
    change max c.peakCallStack (m.calls.push v).size = (m.calls.push v).peak
    rw [h.peak, CallStack.peak_push]
  depth := h.depth
  limited := h.limited

theorem leave (h : m.Metered limit c) : { m with depth := m.depth - 1 }.Metered limit c where
  counters := h.counters
  peak := h.peak
  depth := Nat.le_trans (Nat.sub_le _ _) h.depth
  limited := h.limited

private theorem truncateCalls (h : m.Metered limit c) (n : Nat) :
    (m.truncateCalls n).Metered limit c :=
  h.congr rfl rfl rfl

private theorem popCalls (h : m.Metered limit c) (n : Nat) : (m.popCalls n).2.Metered limit c :=
  h.congr rfl (CallStack.peak_popFrame m.calls n) rfl

private theorem bindArguments (h : m.Metered limit c) (closure : Closure) (args : List Value) :
    (m.bindArguments closure args).2.Metered limit c :=
  h.congr rfl rfl rfl

private theorem intern (h : m.Metered limit c) (name : String) :
    (m.intern name).2.Metered limit c := by
  unfold Machine.intern
  dsimp only
  split <;> exact h.congr rfl rfl rfl

private theorem print (h : m.Metered limit c) (text : String) : (m.print text).Metered limit c :=
  h.congr rfl rfl rfl

end Metered
end Machine

def Waiting.isOperator : Waiting → Bool
  | operator _ => true
  | _ => false

namespace State

def operators (ws : List Waiting) : Nat := ws.countP Waiting.isOperator

private theorem operators_operator (site : CallSite) (ws : List Waiting) :
    operators (.operator site :: ws) = operators ws + 1 :=
  List.countP_cons_of_pos rfl

private theorem operators_other {w : Waiting} (hw : w.isOperator = false) (ws : List Waiting) :
    operators (w :: ws) = operators ws :=
  List.countP_cons_of_neg (by rw [hw]; exact Bool.false_ne_true)

/-- The machine has counted `c` and the state's own depth, while `k` operators are being
evaluated. -/
structure Metered (limit : Option Nat) (c : Counters) (k : Nat) (s : State) : Prop where
  machine : s.machine.Metered limit (c.recordDepth s.machine.depth)
  operators : operators s.waiting = k

/-- The same, except that one call may have been counted beside. -/
def CalledFrom (limit : Option Nat) (c : Counters) (k : Nat) (s : State) : Prop :=
  ∃ c', c.Called c' ∧ s.Metered limit c' k

def evaluates (s : State) : Bool :=
  match s.control with
  | .eval _ _ => true
  | _ => false

def entersForm (s : State) : Bool :=
  match s.waiting, s.control with
  | .operator _ :: _, .answer (.ok (.form _)) => true
  | _, _ => false

theorem entersForm_of_busy {s : State} (h : ∀ result, s.control ≠ .answer result) :
    s.entersForm = false := by
  unfold entersForm
  split
  · next hcontrol => exact absurd hcontrol (h _)
  · rfl

/-- The counters after what the next step is known to count. -/
def noted (s : State) (c : Counters) : Counters :=
  if s.evaluates then c.countExpression else if s.entersForm then c.countForm else c

variable {setting : Setting} {m : Machine} {c : Counters} {k : Nat} {ws : List Waiting}

theorem Metered.calledFrom {limit : Option Nat} {s : State} (h : s.Metered limit c k) :
    s.CalledFrom limit c k :=
  ⟨c, .no, h⟩

private theorem metered_same {limit : Option Nat} (h : m.Metered limit c) (control : Control)
    (ws : List Waiting) : Metered limit c (operators ws) ⟨m, control, ws⟩ :=
  ⟨by rw [h.recordDepth_eq]; exact h, rfl⟩

theorem metered_nest (h : m.Metered setting.maxDepth c) (hws : operators ws = k) (expr : Value)
    (env : FrameId) : (nest setting m ws expr env).Metered setting.maxDepth c k := by
  have henter (hroom : ∀ d, setting.maxDepth = some d → m.depth < d) :
      (nest.enterNested ws expr env m).Metered setting.maxDepth c k := by
    refine ⟨⟨?_, h.peak, Nat.le_max_right _ _, ?_⟩, (operators_other rfl _).trans hws⟩
    · exact congrArg (Option.map fun c : Counters => c.recordDepth (m.depth + 1)) h.counters
    · intro d hd
      exact Nat.max_le.mpr ⟨h.limited d hd, hroom d hd⟩
  unfold nest
  split
  · next d hlimit =>
    split
    · rw [← hws]
      exact metered_same h _ _
    · next hroom =>
      apply henter
      intro d' hd'
      obtain rfl : d = d' := Option.some.inj (hlimit.symm.trans hd')
      exact Nat.lt_of_not_le hroom
  · next hlimit =>
    apply henter
    intro d hd
    rw [hlimit] at hd
    cases hd

private theorem called_applyBuiltin (h : m.Metered setting.maxDepth c) (b : Builtin)
    (args : List Value) (context : Held) :
    (applyBuiltin setting m ws b args context).CalledFrom setting.maxDepth c (operators ws) := by
  unfold applyBuiltin
  split
  · exact ⟨_, .builtin, metered_same (h.count rfl rfl) _ _⟩
  · exact (metered_same h _ _).calledFrom

private theorem called_nextOperand (h : m.Metered setting.maxDepth c) (b : Builtin)
    (site : CallSite) (base count : Nat) (rest : Value) :
    (nextOperand setting m ws b site base count rest).CalledFrom setting.maxDepth c
      (operators ws) := by
  have hpop := h.popCalls count
  unfold nextOperand
  split
  · generalize m.popCalls count = popped at hpop ⊢
    obtain ⟨answer, m'⟩ := popped
    cases answer with
    | ok args => exact called_applyBuiltin hpop _ _ _
    | error e => exact (metered_same hpop _ _).calledFrom
  · exact (metered_nest h (operators_other rfl _) _ _).calledFrom
  · exact (metered_same (h.truncateCalls base) _ _).calledFrom

private theorem metered_nextBody (h : m.Metered setting.maxDepth c) (frame : FrameId)
    (context : Held) (inPlace : Bool) (body : List Value) :
    (nextBody setting m ws frame context inPlace body).Metered setting.maxDepth c
      (operators ws) := by
  unfold nextBody
  split
  · exact metered_same h _ _
  · split
    · exact metered_same h _ _
    · exact metered_nest h rfl _ _
  · exact metered_nest h (operators_other rfl _) _ _

private theorem called_applyClosure (h : m.Metered setting.maxDepth c) (closure : ClosureId)
    (args : List Value) (context : Held) (inPlace : Bool) :
    (applyClosure setting m ws closure args context inPlace).CalledFrom setting.maxDepth c
      (operators ws) := by
  have hcount : (m.count Counters.countProcedureCall).Metered setting.maxDepth
      c.countProcedureCall := h.count rfl rfl
  have hbind := hcount.bindArguments (m.store.closure closure) args
  refine ⟨_, .procedure, ?_⟩
  unfold applyClosure
  dsimp only
  split
  · next heq =>
    rw [heq] at hbind
    exact metered_same hbind _ _
  · next heq =>
    rw [heq] at hbind
    split
    · exact metered_same hbind _ _
    · exact metered_nextBody hbind _ _ _ _

private theorem called_nextArgument (h : m.Metered setting.maxDepth c) (closure : ClosureId)
    (site : CallSite) (reversed : List Value) (rest : Value) :
    (nextArgument setting m ws closure site reversed rest).CalledFrom setting.maxDepth c
      (operators ws) := by
  unfold nextArgument
  split
  · exact called_applyClosure h _ _ _ _
  · exact (metered_nest h (operators_other rfl _) _ _).calledFrom
  · exact (metered_same h _ _).calledFrom

theorem called_call (h : m.Metered setting.maxDepth c) (procedure : Value) (args : List Value) :
    (call setting m ws procedure args).CalledFrom setting.maxDepth c (operators ws) := by
  unfold call
  split
  · exact called_applyBuiltin h _ _ _
  · exact called_applyClosure h _ _ _ _
  · exact (metered_same h _ _).calledFrom

theorem metered_evalExpr (h : m.Metered setting.maxDepth c) (expr : Value) (env : FrameId) :
    ∃ k ≤ operators ws + 1, (evalExpr setting m ws expr env).Metered setting.maxDepth c k := by
  unfold evalExpr
  split
  · exact ⟨_, Nat.le_succ _, metered_same h _ _⟩
  · exact ⟨_, Nat.le_refl _, metered_nest h (operators_operator _ _) _ _⟩
  · exact ⟨_, Nat.le_succ _, metered_same h _ _⟩

theorem called_applyHead (h : m.Metered setting.maxDepth c) (site : CallSite) {head : Value}
    (hform : ∀ f, head ≠ .form f) :
    (applyHead setting m ws site head).CalledFrom setting.maxDepth c (operators ws) := by
  unfold applyHead
  split
  · exact called_nextOperand h _ _ _ _ _
  · next f => exact absurd rfl (hform f)
  · exact called_nextArgument h _ _ _ _
  · exact (metered_same h _ _).calledFrom

private theorem called_runNative (h : m.Metered setting.maxDepth c) (program : Native Outcome)
    (context : Held) :
    (runNative setting m ws program context).CalledFrom setting.maxDepth c (operators ws) := by
  have hstore (store : Store) : ({ m with store := store } : Machine).Metered setting.maxDepth c :=
    h.congr rfl rfl rfl
  unfold runNative
  dsimp only
  split
  · exact (metered_same (hstore _) _ _).calledFrom
  · exact (metered_same (hstore _) _ _).calledFrom
  · exact (metered_same (hstore _) _ _).calledFrom
  · exact (metered_same (hstore _) _ _).calledFrom
  · exact (metered_nest (hstore _) (operators_other rfl _) _ _).calledFrom
  · next procedure args held store resume _ =>
    have hcall : (call setting { m with store := store } (.native resume context held :: ws)
        procedure args).CalledFrom setting.maxDepth c
        (operators (.native resume context held :: ws)) :=
      called_call (hstore store) procedure args
    rwa [operators_other rfl] at hcall
  · exact (metered_same ((hstore _).intern _) _ _).calledFrom
  · exact (metered_same ((hstore _).print _) _ _).calledFrom
  · exact (metered_same (hstore _) _ _).calledFrom

/-- What a step from `s` to `s'` counts: what is known beforehand, a value that is pushed, at most
one call, and the depth that it leads to. A form is entered for an operator that has been evaluated,
and an operator is left to evaluate by the evaluation of an expression. -/
def Advances (limit : Option Nat) (c : Counters) (s s' : State) : Prop :=
  ∃ size k, s'.CalledFrom limit ((s.noted c).recordStack size) k ∧
    k + s.entersForm.toNat ≤ operators s.waiting + s.evaluates.toNat

private theorem Advances.of_called {limit : Option Nat} {s s' : State}
    (h : s'.CalledFrom limit (s.noted c) k)
    (hk : k + s.entersForm.toNat ≤ operators s.waiting + s.evaluates.toNat) :
    s.Advances limit c s' :=
  ⟨0, k, by rwa [Counters.recordStack, Nat.max_zero], hk⟩

private theorem operators_le_cons (w : Waiting) (ws : List Waiting) :
    operators ws ≤ operators (w :: ws) :=
  (List.sublist_cons_self w ws).countP_le

private theorem advances_deliver (h : m.Metered setting.maxDepth c) (w : Waiting)
    (result : Except EvalError Value) :
    Advances setting.maxDepth c ⟨m, .answer result, w :: ws⟩ (deliver setting m ws w result) := by
  have hplain {s' : State} (hform : (⟨m, .answer result, w :: ws⟩ : State).entersForm = false)
      (hs' : s'.CalledFrom setting.maxDepth c (operators ws)) :
      Advances setting.maxDepth c ⟨m, .answer result, w :: ws⟩ s' := by
    refine .of_called (k := operators ws) ?_ ?_
    · rw [noted, hform]
      exact hs'
    · rw [hform]
      exact operators_le_cons w ws
  cases w with
  | nested expr env => exact hplain rfl (metered_same h.leave _ _).calledFrom
  | native resume context held => exact hplain rfl (metered_same h _ _).calledFrom
  | operator site =>
    cases result with
    | error e => exact hplain rfl (metered_same h _ _).calledFrom
    | ok head =>
      obtain ⟨f, rfl⟩ | hform : (∃ f, head = .form f) ∨ ∀ f, head ≠ .form f := by
        cases head <;> simp
      · refine .of_called (metered_same (h.count rfl rfl) _ _).calledFrom ?_
        exact Nat.le_of_eq (operators_operator site ws).symm
      · refine hplain ?_ (called_applyHead h _ hform)
        cases head <;> first | rfl | exact absurd rfl (hform _)
  | operand b site base count current =>
    cases result with
    | ok v =>
      exact ⟨_, _, called_nextOperand (h.pushCall v) _ _ _ _ _, Nat.le_refl _⟩
    | error e => exact hplain rfl (metered_same (h.truncateCalls base) _ _).calledFrom
  | argument closure site rest reversed =>
    cases result with
    | ok v => exact hplain rfl (called_nextArgument h _ _ _ _)
    | error e => exact hplain rfl (metered_same h _ _).calledFrom
  | body rest frame context inPlace =>
    cases result with
    | ok v => exact hplain rfl (metered_nextBody h _ _ _ _).calledFrom
    | error e => exact hplain rfl (metered_same h _ _).calledFrom

theorem advances_step {s : State} (h : s.machine.Metered setting.maxDepth c) :
    s.Advances setting.maxDepth c (s.step setting) := by
  obtain ⟨m, control, ws⟩ := s
  cases control with
  | eval expr env =>
    have hcount : (m.count Counters.countExpression).Metered setting.maxDepth c.countExpression :=
      h.count rfl rfl
    obtain ⟨k, hk, hs'⟩ : ∃ k ≤ operators ws + 1,
        (evalExpr setting (m.count Counters.countExpression) ws expr env).Metered
          setting.maxDepth c.countExpression k := metered_evalExpr hcount expr env
    refine .of_called hs'.calledFrom ?_
    rw [entersForm_of_busy (by simp)]
    exact hk
  | native program context =>
    have hform : entersForm ⟨m, .native program context, ws⟩ = false := entersForm_of_busy (by simp)
    refine .of_called (k := operators ws) ?_ (by rw [hform]; exact Nat.le_refl _)
    rw [noted, hform]
    exact called_runNative h program context
  | answer result =>
    cases ws with
    | nil => exact .of_called (metered_same h _ _).calledFrom (Nat.le_refl _)
    | cons w ws => exact advances_deliver h w result

end State
end MiniScheme
