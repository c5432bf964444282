import Mathlib.Algebra.GroupWithZero.Nat
import Mathlib.Order.Bounds.Defs
import MiniScheme.Proofs.Interpreter.Definitions
import MiniScheme.Proofs.Machine.CallStack
import MiniScheme.Proofs.Machine.Rules
/-! # The depth limit

The limit is looked at in one place only, where a nested evaluation starts. Up to the first one that
is refused, a run under a limit is the run without it, state by state. From there on the overflow is
handed from one piece of waiting work to the next: nothing on the way catches it, as native code hands
on errors and an operator rewrites no error but that of an unbound name.
-/
namespace MiniScheme

/-- No restriction on stores and frames. What is left of the rules is that errors are handed on. -/
def Rules.any : Rules := ⟨fun _ => True, fun _ _ => True, fun _ => True⟩

private theorem Rules.lawful_any : Rules.any.Lawful where
  good_of_change _ _ := trivial
  trans _ _ := trivial
  of_frames_eq _ := trivial
  child _ _ := ⟨trivial, trivial⟩
  define _ _ _ _ := trivial

/-- Native code of the library that has asked for an evaluation or a call fails with its error, if
there is one. -/
def Library.HandsOnErrors (l : Library) : Prop := l.Obeys Rules.any Native.never

private theorem Standard.handsOnErrors_library : library.HandsOnErrors := by
  apply obeys_library Rules.lawful_any
  intro env x v _
  right
  intro store _
  unfold Forms.assignment
  split
  · exact ⟨trivial, trivial⟩
  · trivial

private theorem Library.handsOnErrors_empty : ({} : Library).HandsOnErrors where
  procedure _ _ := Native.obeys_fail Rules.lawful_any _
  form _ _ _ _ := Native.obeys_fail Rules.lawful_any _

private theorem Interpreter.handsOnErrors_build {config : Config} {symbols : SymbolTable}
    {i : Interpreter} (h : build config symbols = .ok i) : i.library.HandsOnErrors := by
  rw [library_build h]
  split
  · exact Standard.handsOnErrors_library
  · exact Library.handsOnErrors_empty

def Setting.limited (setting : Setting) (limit : Option Nat) : Setting :=
  { setting with maxDepth := limit }

namespace State

/-- A state that is reached under the limit `d`, and the one reached from the same state without a
limit: they are the same, or the limit has refused the nested evaluation that starts there. -/
inductive Cut (d : Nat) : State → State → Prop
  | same {s : State} (hdepth : s.machine.depth ≤ d) : Cut d s s
  | refused {m : Machine} {ws : List Waiting} {expr : Value} {env : FrameId}
    (hdepth : d ≤ m.depth) :
    Cut d (fail m ws (.stackOverflow d)) (nest.enterNested ws expr env m)

variable {setting : Setting} {d : Nat} {m : Machine}

private theorem cut_nest (setting : Setting) (d : Nat) (m : Machine) (ws : List Waiting)
    (expr : Value) (env : FrameId) :
    Cut d (nest (setting.limited (some d)) m ws expr env)
      (nest (setting.limited none) m ws expr env) := by
  simp only [nest, Setting.limited]
  split
  · next hle => exact .refused hle
  · next hlt =>
    apply Cut.same
    change m.depth + 1 ≤ d
    omega

private theorem cut_nextOperand (hm : m.depth ≤ d) (ws : List Waiting) (b : Builtin)
    (site : CallSite) (bottom count : Nat) (rest : Value) :
    Cut d (nextOperand (setting.limited (some d)) m ws b site bottom count rest)
      (nextOperand (setting.limited none) m ws b site bottom count rest) := by
  unfold nextOperand
  split
  · have hpop : (m.popCalls count).2.depth ≤ d := hm
    split <;> rename_i heq <;> rw [heq] at hpop
    · unfold applyBuiltin
      split <;> exact .same hpop
    · exact .same hpop
  · exact cut_nest setting d m _ _ _
  · exact .same hm

private theorem cut_nextBody (hm : m.depth ≤ d) (ws : List Waiting) (frame : FrameId)
    (context : Held) (inPlace : Bool) (body : List Value) :
    Cut d (nextBody (setting.limited (some d)) m ws frame context inPlace body)
      (nextBody (setting.limited none) m ws frame context inPlace body) := by
  unfold nextBody
  split
  · exact .same hm
  · split
    · exact .same hm
    · exact cut_nest setting d m _ _ _
  · exact cut_nest setting d m _ _ _

private theorem cut_applyClosure (hm : m.depth ≤ d) (ws : List Waiting) (c : ClosureId)
    (args : List Value) (context : Held) (inPlace : Bool) :
    Cut d (applyClosure (setting.limited (some d)) m ws c args context inPlace)
      (applyClosure (setting.limited none) m ws c args context inPlace) := by
  have hbind : ((m.count Counters.countProcedureCall).bindArguments
      (m.store.closure c) args).2.depth ≤ d := hm
  unfold applyClosure
  dsimp only
  split <;> rename_i heq <;> rw [heq] at hbind
  · exact .same hbind
  · split
    · exact .same hbind
    · exact cut_nextBody hbind ws _ _ _ _

private theorem cut_nextArgument (hm : m.depth ≤ d) (ws : List Waiting) (c : ClosureId)
    (site : CallSite) (reversed : List Value) (rest : Value) :
    Cut d (nextArgument (setting.limited (some d)) m ws c site reversed rest)
      (nextArgument (setting.limited none) m ws c site reversed rest) := by
  unfold nextArgument
  split
  · exact cut_applyClosure hm ws c _ _ _
  · exact cut_nest setting d m _ _ _
  · exact .same hm

private theorem cut_call (hm : m.depth ≤ d) (ws : List Waiting) (procedure : Value)
    (args : List Value) :
    Cut d (call (setting.limited (some d)) m ws procedure args)
      (call (setting.limited none) m ws procedure args) := by
  unfold call
  split
  · unfold applyBuiltin
    split <;> exact .same hm
  · exact cut_applyClosure hm ws _ args _ _
  · exact .same hm

private theorem cut_evalExpr (hm : m.depth ≤ d) (ws : List Waiting) (expr : Value) (env : FrameId) :
    Cut d (evalExpr (setting.limited (some d)) m ws expr env)
      (evalExpr (setting.limited none) m ws expr env) := by
  unfold evalExpr
  split
  · exact .same hm
  · exact cut_nest setting d m _ _ _
  · exact .same hm

private theorem cut_applyHead (hm : m.depth ≤ d) (ws : List Waiting) (site : CallSite)
    (head : Value) :
    Cut d (applyHead (setting.limited (some d)) m ws site head)
      (applyHead (setting.limited none) m ws site head) := by
  unfold applyHead
  split
  · exact cut_nextOperand hm ws _ site _ _ _
  · exact .same hm
  · exact cut_nextArgument hm ws _ site _ _
  · exact .same hm

private theorem cut_deliver (hm : m.depth ≤ d) (ws : List Waiting) (w : Waiting)
    (result : Except EvalError Value) :
    Cut d (deliver (setting.limited (some d)) m ws w result)
      (deliver (setting.limited none) m ws w result) := by
  cases w with
  | nested expr env =>
    apply Cut.same
    change m.depth - 1 ≤ d
    omega
  | native resume context held => exact .same hm
  | operator site =>
    cases result with
    | ok head => exact cut_applyHead hm ws site head
    | error e => exact .same hm
  | operand b site bottom count current =>
    cases result with
    | ok v => exact cut_nextOperand (m := m.pushCall v) hm ws b site _ _ _
    | error e => exact .same hm
  | argument c site rest reversed =>
    cases result with
    | ok v => exact cut_nextArgument hm ws c site _ _
    | error e => exact .same hm
  | body rest frame context inPlace =>
    cases result with
    | ok v => exact cut_nextBody hm ws frame _ _ _
    | error e => exact .same hm

private theorem cut_runNative (hm : m.depth ≤ d) (ws : List Waiting) (program : Native Outcome)
    (context : Held) :
    Cut d (runNative (setting.limited (some d)) m ws program context)
      (runNative (setting.limited none) m ws program context) := by
  obtain ⟨store, symbols, calls, depth, counters, output⟩ := m
  simp only [runNative]
  split
  · exact .same hm
  · exact .same hm
  · exact .same hm
  · exact .same hm
  · exact cut_nest setting d _ _ _ _
  · apply cut_call
    exact hm
  · next name store' resume _ =>
    apply Cut.same
    unfold Machine.intern
    dsimp only
    split <;> exact hm
  · exact .same hm
  · exact .same hm

private theorem cut_step {s : State} (hs : s.machine.depth ≤ d) :
    Cut d (s.step (setting.limited (some d))) (s.step (setting.limited none)) := by
  obtain ⟨m, control, ws⟩ := s
  cases control with
  | eval expr env => exact cut_evalExpr (m := m.count _) hs ws expr env
  | native program context => exact cut_runNative hs ws program context
  | answer result =>
    cases ws with
    | nil => exact .same hs
    | cons w ws => exact cut_deliver hs ws w result

private theorem run_step {s : State} (hopen : s.result? = none) (fuel : Nat) :
    s.run setting (fuel + 1) = (s.step setting).run setting fuel := by
  rw [run, hopen]

theorem run_overflow (setting : Setting) (d : Nat) {ws : List Waiting}
    (hws : ∀ w ∈ ws, w.Obeys Rules.any Native.never) (m : Machine) :
    ∃ fuel m', (fail m ws (.stackOverflow d)).run setting fuel =
      some (.error (.stackOverflow d), m') := by
  induction ws generalizing m with
  | nil => exact ⟨1, m, rfl⟩
  | cons w ws ih =>
    have hrest := ih fun w hw => hws w (List.mem_cons_of_mem _ hw)
    -- One step delivers the overflow; native code takes another one to fail with it.
    have of_step {m' : Machine} (hstep : (fail m (w :: ws) (.stackOverflow d)).step setting =
        fail m' ws (.stackOverflow d)) : ∃ fuel m',
          (fail m (w :: ws) (.stackOverflow d)).run setting fuel =
            some (.error (.stackOverflow d), m') := by
      obtain ⟨fuel, m'', hrun⟩ := hrest m'
      refine ⟨fuel + 1, m'', ?_⟩
      rw [run_step rfl, hstep, hrun]
    cases w with
    | nested expr env => exact of_step rfl
    | native resume context held =>
      obtain ⟨herror, -⟩ := hws _ List.mem_cons_self
      have hfail : resume (.error (.stackOverflow d)) = Native.fail (.stackOverflow d) :=
        funext (herror _)
      obtain ⟨fuel, m', hrun⟩ := hrest m
      refine ⟨fuel + 2, m', ?_⟩
      rw [run_step rfl, run_step rfl]
      change State.run setting fuel (runNative setting m ws (resume _) context) = _
      rw [hfail]
      exact hrun
    | operator site =>
      have hhead : headError m.store site (.stackOverflow d) = .stackOverflow d := by
        unfold headError
        split
        · next hcause => simp [EvalError.stackOverflow] at hcause
        · rfl
      exact of_step (congrArg (fail m ws) hhead)
    | operand b site bottom count current => exact of_step rfl
    | argument c site rest reversed => exact of_step rfl
    | body rest frame context inPlace => exact of_step rfl

private theorem Accounts.depth_eq {ws : List Waiting} {values vs : List Value} {depth : Nat}
    (h : Accounts [] values depth ws vs d) : d = depth + (ws.map Waiting.levels).sum := by
  induction h with
  | entry => rfl
  | above w args rest pushed ih =>
    rw [List.map_cons, List.sum_cons, ih]
    omega

theorem within_after_nil {values : List Value} {depth : Nat} {s : State}
    (h : Within [] values depth s) (n : Nat) : Within [] values depth (after setting n s) := by
  induction n generalizing s with
  | zero => exact h
  | succ n ih =>
    apply ih
    by_cases hanswers : s.AnswersTo []
    · obtain ⟨m, control, waiting⟩ := s
      obtain ⟨result, rfl, rfl⟩ := hanswers
      exact h
    · exact within_step h hanswers

/-- The depths that occur on the way from a state. -/
def depths (setting : Setting) (s : State) : Set Nat :=
  {depth | ∃ n, depth = (after setting n s).machine.depth}

private theorem exists_greatest_depth {fuel : Nat} {s : State}
    {finished : Except EvalError Value × Machine}
    (h : s.run setting fuel = some finished) : ∃ m, IsGreatest (s.depths setting) m := by
  induction fuel generalizing s with
  | zero => simp [run] at h
  | succ fuel ih =>
    cases hresult : s.result? with
    | some result =>
      refine ⟨s.machine.depth, ⟨0, rfl⟩, ?_⟩
      rintro depth ⟨n, rfl⟩
      exact Nat.le_of_eq (by rw [after_of_result hresult])
    | none =>
      rw [run_step hresult] at h
      obtain ⟨m, ⟨k, hk⟩, hm⟩ := ih h
      refine ⟨max s.machine.depth m, ?_, ?_⟩
      · rcases Nat.le_total s.machine.depth m with hle | hle
        · exact ⟨k + 1, by rw [Nat.max_eq_right hle]; exact hk⟩
        · exact ⟨0, by rw [Nat.max_eq_left hle]; rfl⟩
      · rintro depth ⟨n, rfl⟩
        cases n with
        | zero => exact Nat.le_max_left _ _
        | succ n => exact Nat.le_trans (hm ⟨n, rfl⟩) (Nat.le_max_right _ _)

/-- A run under the limit `d` goes like the one without, or the one without exceeds `d` and the one
under the limit ends with the overflow. -/
theorem Cut.run (hlib : setting.library.HandsOnErrors) {s t : State} (hcut : Cut d s t)
    (ht : t.Obeys Rules.any Native.never []) (fuel : Nat) :
    (s.run (setting.limited (some d)) fuel = t.run (setting.limited none) fuel ∧
      ((t.run (setting.limited none) fuel).isSome →
        ∀ depth ∈ t.depths (setting.limited none), depth ≤ d)) ∨
    ((∃ depth ∈ t.depths (setting.limited none), d < depth) ∧
      ∃ fuel' m, s.run (setting.limited (some d)) fuel' = some (.error (.stackOverflow d), m)) := by
  induction fuel generalizing s t with
  | zero =>
    left
    exact ⟨rfl, fun h => absurd h (by simp [State.run])⟩
  | succ fuel ih =>
    cases hcut with
    | @refused m ws expr env hdepth =>
      right
      refine ⟨⟨m.depth + 1, ⟨0, rfl⟩, by omega⟩, ?_⟩
      obtain ⟨above, heq, habove⟩ := ht.waiting
      have hws : Waiting.nested expr env :: ws = above := by
        rw [List.append_nil] at heq
        exact heq
      apply run_overflow
      intro w hw
      exact habove w (hws ▸ List.mem_cons_of_mem _ hw)
    | same hdepth =>
      cases hresult : s.result? with
      | some result =>
        left
        refine ⟨by simp only [State.run, hresult], ?_⟩
        rintro - depth ⟨n, rfl⟩
        rw [after_of_result hresult]
        exact hdepth
      | none =>
        have hlib' : (setting.limited none).library.Obeys Rules.any Native.never := hlib
        have hstep := (ht.step Rules.lawful_any hlib' (fun _ => False.elim) fun _ => rfl).1
        simp only [run_step hresult]
        rcases ih (cut_step hdepth) hstep with ⟨hrun, hdepths⟩ | ⟨⟨depth, ⟨n, hn⟩, hlt⟩, hover⟩
        · left
          refine ⟨hrun, ?_⟩
          rintro hsome depth ⟨n, rfl⟩
          cases n with
          | zero => exact hdepth
          | succ n => exact hdepths hsome _ ⟨n, rfl⟩
        · right
          refine ⟨⟨depth, ⟨n + 1, hn⟩, hlt⟩, ?_⟩
          obtain ⟨fuel', m, hrun⟩ := hover
          exact ⟨fuel' + 1, m, by rw [run_step hresult, hrun]⟩

private theorem run_unique {s : State} {fuel fuel' : Nat}
    {finished finished' : Except EvalError Value × Machine}
    (h : s.run setting fuel = some finished) (h' : s.run setting fuel' = some finished') :
    finished = finished' := by
  have hmax := run_mono (Nat.le_max_left fuel fuel') h
  rw [run_mono (Nat.le_max_right fuel fuel') h'] at hmax
  exact (Option.some.inj hmax).symm

end State

namespace Interpreter

def limited (i : Interpreter) (limit : Option Nat) : Interpreter := { i with maxDepth := limit }

/-- The depths that occur when `expr` is evaluated without a limit. -/
def depths (i : Interpreter) (caller : Held) (expr : Value) (env : FrameId) : Set Nat :=
  {depth | ∃ n, depth = ((i.limited none).evaluating caller expr env n).machine.depth}

/-- The depth is that of the start and one level for each nested evaluation under way. -/
theorem depth_evaluating (i : Interpreter) (caller : Held) (expr : Value) (env : FrameId) (n : Nat) :
    (i.evaluating caller expr env n).machine.depth =
      i.machine.depth + ((i.evaluating caller expr env n).waiting.map Waiting.levels).sum := by
  have hstart : State.Within [] i.machine.calls.values.toList i.machine.depth
      (i.evaluating caller expr env 0) :=
    State.within_nest (State.balanced_entry [] i.machine) expr env
  exact (State.within_after_nil hstart n).depth_eq

/-- The evaluation of `expr` under a limit, from its first state. -/
def runLimited (fuel : Nat) (i : Interpreter) (caller : Held) (expr : Value) (env : FrameId)
    (limit : Option Nat) : Option (Except EvalError Value × Machine) :=
  let setting := (i.setting caller).limited limit
  (State.nest setting i.machine [] expr env).run setting fuel

private theorem evaluate_limited (fuel : Nat) (i : Interpreter) (caller : Held) (expr : Value)
    (env : FrameId) (limit : Option Nat) :
    (i.limited limit).evaluate fuel caller expr env =
      (i.runLimited fuel caller expr env limit).map fun finished =>
        (finished.1, { i.limited limit with machine := finished.2 }) := by
  rw [evaluate_eq_runFrom, runFrom_eq_map]
  rfl

private theorem run_of_evaluate_limited {fuel : Nat} {i j : Interpreter} {caller : Held}
    {expr : Value} {env : FrameId} {limit : Option Nat} {result : Except EvalError Value}
    (h : (i.limited limit).evaluate fuel caller expr env = some (result, j)) :
    ∃ m, i.runLimited fuel caller expr env limit = some (result, m) ∧
      j = { i.limited limit with machine := m } := by
  rw [evaluate_limited, Option.map_eq_some_iff] at h
  obtain ⟨⟨result', m⟩, hrun, heq⟩ := h
  obtain ⟨rfl, rfl⟩ := Prod.mk.inj heq
  exact ⟨m, hrun, rfl⟩

private theorem runLimited_cases {i : Interpreter} (hlib : i.library.HandsOnErrors) (fuel : Nat)
    (caller : Held) (expr : Value) (env : FrameId) (d : Nat) :
    (i.runLimited fuel caller expr env (some d) = i.runLimited fuel caller expr env none ∧
      ((i.runLimited fuel caller expr env none).isSome →
        ∀ depth ∈ i.depths caller expr env, depth ≤ d)) ∨
    ((∃ depth ∈ i.depths caller expr env, d < depth) ∧
      ∃ fuel' m, i.runLimited fuel' caller expr env (some d) =
        some (.error (.stackOverflow d), m)) := by
  have hstart : (State.nest ((i.setting caller).limited none) i.machine [] expr env).Obeys
      Rules.any Native.never [] :=
    (State.reaches_nest Rules.lawful_any trivial (.entry _ _ _) expr trivial).2
  exact (State.cut_nest (i.setting caller) d i.machine [] expr env).run hlib hstart fuel

/-- A run under a limit that has not overflowed is the run without a limit, which stays within. -/
theorem runLimited_of_ne_overflow {i : Interpreter} (hlib : i.library.HandsOnErrors) {fuel d : Nat}
    {caller : Held} {expr : Value} {env : FrameId} {result : Except EvalError Value} {m : Machine}
    (h : i.runLimited fuel caller expr env (some d) = some (result, m))
    (hresult : result ≠ .error (.stackOverflow d)) :
    i.runLimited fuel caller expr env none = some (result, m) ∧
      ∀ depth ∈ i.depths caller expr env, depth ≤ d := by
  rcases runLimited_cases hlib fuel caller expr env d with ⟨hrun, hdepths⟩ | ⟨-, fuel', m', hover⟩
  · rw [← hrun] at hdepths ⊢
    exact ⟨h, hdepths (by simp [h])⟩
  · have heq := State.run_unique h hover
    exact absurd (congrArg Prod.fst heq) hresult

theorem runLimited_of_depths_le {i : Interpreter} (hlib : i.library.HandsOnErrors) (fuel : Nat)
    {d : Nat} {caller : Held} {expr : Value} {env : FrameId}
    (hdepths : ∀ depth ∈ i.depths caller expr env, depth ≤ d) :
    i.runLimited fuel caller expr env (some d) = i.runLimited fuel caller expr env none := by
  rcases runLimited_cases hlib fuel caller expr env d with ⟨hrun, -⟩ | ⟨⟨depth, hmem, hlt⟩, -⟩
  · exact hrun
  · exact absurd (hdepths depth hmem) (by omega)

/-- The depth limit cuts an evaluation and changes nothing else, for native code that hands on
errors, as that of every interpreter does that is built. The depth counts the nested evaluations under
way; let `m` be the greatest one of an evaluation that finishes without a limit. Under a limit of at
least `m` it gives the same result and leaves the same interpreter; under a smaller limit it ends with
the overflow of that limit. So a result that is no overflow is that of every greater limit, and of
none. -/
theorem depth_limit_only_cuts :
    (∀ config symbols i, build config symbols = .ok i → i.library.HandsOnErrors) ∧
    (∀ (i : Interpreter) caller expr env n,
      (i.evaluating caller expr env n).machine.depth =
        i.machine.depth + ((i.evaluating caller expr env n).waiting.map Waiting.levels).sum) ∧
    ∀ (i : Interpreter) (caller : Held) (expr : Value) (env : FrameId),
      i.library.HandsOnErrors →
      (∀ fuel result j, (i.limited none).evaluate fuel caller expr env = some (result, j) →
        ∃ m, IsGreatest (i.depths caller expr env) m ∧
          (∀ d ≥ m, (i.limited (some d)).evaluate fuel caller expr env =
            some (result, j.limited (some d))) ∧
          (∀ d < m, ∃ fuel' j', (i.limited (some d)).evaluate fuel' caller expr env =
            some (.error (.stackOverflow d), j'))) ∧
      (∀ fuel d result j, (i.limited (some d)).evaluate fuel caller expr env = some (result, j) →
        result ≠ .error (.stackOverflow d) →
        (∀ d' ≥ d, (i.limited (some d')).evaluate fuel caller expr env =
          some (result, j.limited (some d'))) ∧
        (i.limited none).evaluate fuel caller expr env = some (result, j.limited none)) := by
  refine ⟨fun config symbols i => handsOnErrors_build, depth_evaluating, ?_⟩
  intro i caller expr env hlib
  refine ⟨?_, ?_⟩
  · intro fuel result j h
    obtain ⟨machine, hrun, rfl⟩ := run_of_evaluate_limited h
    obtain ⟨m, hm⟩ : ∃ m, IsGreatest (i.depths caller expr env) m :=
      State.exists_greatest_depth hrun
    refine ⟨m, hm, ?_, ?_⟩
    · intro d hd
      have hsame := runLimited_of_depths_le hlib fuel
        fun depth hdepth => Nat.le_trans (hm.2 hdepth) hd
      rw [evaluate_limited, hsame, hrun]
      rfl
    · intro d hd
      rcases runLimited_cases hlib fuel caller expr env d with ⟨-, hdepths⟩ | ⟨-, fuel', m', hover⟩
      · have hle := hdepths (by simp [hrun]) m hm.1
        omega
      · refine ⟨fuel', { i.limited (some d) with machine := m' }, ?_⟩
        rw [evaluate_limited, hover]
        rfl
  · intro fuel d result j h hresult
    obtain ⟨machine, hrun, rfl⟩ := run_of_evaluate_limited h
    obtain ⟨hnone, hdepths⟩ := runLimited_of_ne_overflow hlib hrun hresult
    refine ⟨?_, ?_⟩
    · intro d' hd'
      have hsame := runLimited_of_depths_le hlib fuel
        fun depth hdepth => Nat.le_trans (hdepths depth hdepth) hd'
      rw [evaluate_limited, hsame, hnone]
      rfl
    · rw [evaluate_limited, hnone]
      rfl

/-- About to evaluate `(begin (list 5) 7)`. -/
def beginList : Interpreter where
  machine :=
    { store :=
        { cells := #[⟨.form ⟨2, "begin"⟩, .pair ⟨1⟩⟩, ⟨.pair ⟨3⟩, .pair ⟨2⟩⟩, ⟨.int 7, .nil⟩,
            ⟨.builtin ⟨20, "list", .atLeast 0⟩, .pair ⟨4⟩⟩, ⟨.int 5, .nil⟩]
          frames := #[⟨[], none⟩]
          closures := #[] }
      symbols := SymbolTable.empty
      calls := CallStack.empty
      depth := 0
      counters := none
      output := .silent }
  library := Standard.library
  maxDepth := none
  global := ⟨0⟩

theorem beginList_needs_three_levels :
    (∀ d ≥ 3, ∃ j, (beginList.limited (some d)).evaluate 30 {} (.pair ⟨0⟩) ⟨0⟩ =
      some (.ok (.int 7), j)) ∧
    ∀ d < 3, ∃ fuel j, (beginList.limited (some d)).evaluate fuel {} (.pair ⟨0⟩) ⟨0⟩ =
      some (.error (.stackOverflow d), j) := by
  obtain ⟨hnone, hsome⟩ := depth_limit_only_cuts.2.2 beginList {} (.pair ⟨0⟩) ⟨0⟩
    Standard.handsOnErrors_library
  have hresult (limit : Option Nat) (h : ((beginList.limited limit).evaluate 30 {} (.pair ⟨0⟩)
      ⟨0⟩).map (·.1.toOption) = some (some (.int 7))) :
      ∃ j, (beginList.limited limit).evaluate 30 {} (.pair ⟨0⟩) ⟨0⟩ = some (.ok (.int 7), j) := by
    obtain ⟨⟨result, j⟩, hrun, hvalue⟩ := Option.map_eq_some_iff.mp h
    cases result with
    | error e => simp [Except.toOption] at hvalue
    | ok v =>
      obtain rfl : v = .int 7 := by simpa [Except.toOption] using hvalue
      exact ⟨j, hrun⟩
  refine ⟨?_, ?_⟩
  · intro d hd
    obtain ⟨j, hthree⟩ := hresult (some 3) (by decide +kernel)
    exact ⟨_, (hsome 30 3 _ j hthree (by simp)).1 d hd⟩
  · obtain ⟨j, hfree⟩ := hresult none (by decide +kernel)
    obtain ⟨m, hm, -, hless⟩ := hnone 30 _ j hfree
    have hthree : 3 ≤ m := hm.2 ⟨7, by decide +kernel⟩
    intro d hd
    exact hless d (by omega)

end Interpreter
end MiniScheme
