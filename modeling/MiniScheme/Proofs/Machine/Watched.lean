import MiniScheme.Proofs.Machine.Run
/-! # Counters and output during evaluation

A machine is watched in two ways: by counters, if it keeps any, and by what it prints. No rule of
the machine looks at either. So a step from a state with other counters and another output is the
same step, and what it appends to the output is read off the native code that it runs.
-/
namespace MiniScheme

def Machine.watched (m : Machine) (counters : Option Counters) (output : Output) : Machine :=
  { m with counters := counters, output := output }

/-- The text that native code prints next. -/
def Interaction.printed? {α : Type} : Interaction α → Option String
  | .print text _ _ => some text
  | _ => none

namespace State

def watched (s : State) (counters : Option Counters) (output : Output) : State :=
  { s with machine := s.machine.watched counters output }

/-- The state without counters and output. -/
def unwatched (s : State) : State := s.watched none .silent

/-- The text that the next step prints. -/
def printed? (s : State) : Option String :=
  match s.control with
  | .native program _ => (program s.machine.store).printed?
  | _ => none

/-- The first state is the second one but for its counters, and its output is `output`. -/
def Beside (output : Output) (s' s : State) : Prop := ∃ counters, s' = s.watched counters output

end State

namespace Machine

variable (m : Machine) (counters : Option Counters) (output : Output)

theorem store_watched : (m.watched counters output).store = m.store := rfl

theorem count_watched (event : Counters → Counters) :
    (m.watched counters output).count event =
      (m.count event).watched (counters.map event) output := rfl

private theorem popCalls_watched (n : Nat) :
    (m.watched counters output).popCalls n =
      ((m.popCalls n).1, (m.popCalls n).2.watched counters output) := rfl

theorem bindArguments_watched (c : Closure) (args : List Value) :
    (m.watched counters output).bindArguments c args =
      ((m.bindArguments c args).1, (m.bindArguments c args).2.watched counters output) := rfl

theorem intern_watched (name : String) :
    (m.watched counters output).intern name =
      ((m.intern name).1, (m.intern name).2.watched counters output) := by
  simp only [intern, watched]
  rcases m.symbols.intern name with ⟨_ | _, symbols⟩ <;> rfl

end Machine

namespace State

variable (setting : Setting) (m : Machine) (counters : Option Counters) (output : Output)
  (ws : List Waiting)

theorem beside_nest (expr : Value) (env : FrameId) :
    Beside output (nest setting (m.watched counters output) ws expr env)
      (nest setting m ws expr env) := by
  unfold nest
  split
  · change Beside output (if _ ≤ m.depth then _ else _) _
    split <;> exact ⟨_, rfl⟩
  · exact ⟨_, rfl⟩

private theorem beside_applyBuiltin (b : Builtin) (args : List Value) (context : Held) :
    Beside output (applyBuiltin setting (m.watched counters output) ws b args context)
      (applyBuiltin setting m ws b args context) := by
  unfold applyBuiltin
  split <;> exact ⟨_, rfl⟩

private theorem beside_nextOperand (b : Builtin) (site : CallSite) (base count : Nat)
    (rest : Value) :
    Beside output (nextOperand setting (m.watched counters output) ws b site base count rest)
      (nextOperand setting m ws b site base count rest) := by
  unfold nextOperand
  split
  · rw [Machine.popCalls_watched]
    rcases m.popCalls count with ⟨_ | _, m⟩
    · exact ⟨_, rfl⟩
    · exact beside_applyBuiltin setting m counters output ws _ _ _
  · exact beside_nest setting m counters output _ _ _
  · exact ⟨_, rfl⟩

private theorem beside_nextBody (frame : FrameId) (context : Held) (inPlace : Bool)
    (body : List Value) :
    Beside output (nextBody setting (m.watched counters output) ws frame context inPlace body)
      (nextBody setting m ws frame context inPlace body) := by
  unfold nextBody
  split
  · exact ⟨_, rfl⟩
  · split
    · exact ⟨_, rfl⟩
    · exact beside_nest setting m counters output _ _ _
  · exact beside_nest setting m counters output _ _ _

private theorem beside_applyClosure (c : ClosureId) (args : List Value) (context : Held)
    (inPlace : Bool) :
    Beside output (applyClosure setting (m.watched counters output) ws c args context inPlace)
      (applyClosure setting m ws c args context inPlace) := by
  simp only [applyClosure, Machine.store_watched, Machine.count_watched,
    Machine.bindArguments_watched]
  rcases (m.count Counters.countProcedureCall).bindArguments (m.store.closure c) args with
    ⟨_ | frame, m'⟩
  · exact ⟨_, rfl⟩
  · by_cases hempty : (m.store.closure c).body.isEmpty = true
    · simp only [hempty, ↓reduceIte]
      exact ⟨_, rfl⟩
    · simp only [hempty]
      exact beside_nextBody setting m' _ output ws _ _ _ _

private theorem beside_nextArgument (c : ClosureId) (site : CallSite) (reversed : List Value)
    (rest : Value) :
    Beside output (nextArgument setting (m.watched counters output) ws c site reversed rest)
      (nextArgument setting m ws c site reversed rest) := by
  unfold nextArgument
  split
  · exact beside_applyClosure setting m counters output ws _ _ _ _
  · exact beside_nest setting m counters output _ _ _
  · exact ⟨_, rfl⟩

private theorem beside_call (procedure : Value) (args : List Value) :
    Beside output (call setting (m.watched counters output) ws procedure args)
      (call setting m ws procedure args) := by
  unfold call
  split
  · exact beside_applyBuiltin setting m counters output ws _ _ _
  · exact beside_applyClosure setting m counters output ws _ _ _ _
  · exact ⟨_, rfl⟩

private theorem beside_evalExpr (expr : Value) (env : FrameId) :
    Beside output (evalExpr setting (m.watched counters output) ws expr env)
      (evalExpr setting m ws expr env) := by
  unfold evalExpr
  split
  · exact ⟨_, rfl⟩
  · exact beside_nest setting m counters output _ _ _
  · exact ⟨_, rfl⟩

private theorem beside_applyHead (site : CallSite) (head : Value) :
    Beside output (applyHead setting (m.watched counters output) ws site head)
      (applyHead setting m ws site head) := by
  unfold applyHead
  split
  · exact beside_nextOperand setting m counters output ws _ _ _ _ _
  · exact ⟨_, rfl⟩
  · exact beside_nextArgument setting m counters output ws _ _ _ _
  · exact ⟨_, rfl⟩

private theorem beside_deliver (w : Waiting) (result : Except EvalError Value) :
    Beside output (deliver setting (m.watched counters output) ws w result)
      (deliver setting m ws w result) := by
  unfold deliver
  split
  · exact ⟨_, rfl⟩
  · exact ⟨_, rfl⟩
  · split
    · exact beside_applyHead setting m counters output ws _ _
    · exact ⟨_, rfl⟩
  · split
    · exact beside_nextOperand setting (m.pushCall _) _ output ws _ _ _ _ _
    · exact ⟨_, rfl⟩
  · split
    · exact beside_nextArgument setting m counters output ws _ _ _ _
    · exact ⟨_, rfl⟩
  · split
    · exact beside_nextBody setting m counters output ws _ _ _ _
    · exact ⟨_, rfl⟩

variable {output} in
private theorem Beside.print_empty {s' s : State} (h : Beside output s' s) :
    Beside (output.print "") s' s := by
  rwa [Output.print_empty]

theorem beside_runNative (program : Native Outcome) (context : Held) :
    Beside (output.print ((program m.store).printed?.getD ""))
      (runNative setting (m.watched counters output) ws program context)
      (runNative setting m ws program context) := by
  simp only [runNative, Machine.store_watched]
  cases program m.store with
  | done outcome store =>
    cases outcome with
    | value v => exact .print_empty ⟨_, rfl⟩
    | tail expr env => exact .print_empty ⟨_, rfl⟩
  | fail e store => exact .print_empty ⟨_, rfl⟩
  | endless store => exact .print_empty ⟨_, rfl⟩
  | eval expr env held store resume =>
    exact (beside_nest setting { m with store := store } counters output _ _ _).print_empty
  | call procedure args held store resume =>
    exact (beside_call setting { m with store := store } counters output _ _ _).print_empty
  | intern name store resume =>
    have hintern := Machine.intern_watched { m with store := store } counters output name
    apply Beside.print_empty
    exact ⟨_, congrArg (fun answer => (⟨answer.2, .native (resume answer.1) context, ws⟩ : State))
      hintern⟩
  | print text store resume => exact ⟨_, rfl⟩
  | isSole c held store resume => exact .print_empty ⟨_, rfl⟩

/-- A step is the same step whoever watches, and appends what it prints. -/
theorem beside_step (s : State) :
    Beside (output.print (s.printed?.getD "")) ((s.watched counters output).step setting)
      (s.step setting) := by
  obtain ⟨m, control, ws⟩ := s
  cases control with
  | eval expr env =>
    exact (beside_evalExpr setting (m.count _) _ output ws expr env).print_empty
  | native program context => exact beside_runNative setting m counters output ws program context
  | answer result =>
    cases ws with
    | nil => exact .print_empty ⟨_, rfl⟩
    | cons w ws => exact (beside_deliver setting m counters output ws w result).print_empty

end State
end MiniScheme
