import MiniScheme.Proofs.Machine.CallStack
import MiniScheme.Proofs.SymbolTable.Growth
/-! # The symbol table during evaluation

Nothing in the machine touches the symbol table but native code that asks for a name. So evaluation
only adds to the table, however it ends.
-/
namespace MiniScheme

namespace State

variable (setting : Setting) (m : Machine) (ws : List Waiting)

theorem symbols_nest (expr : Value) (env : FrameId) :
    (nest setting m ws expr env).machine.symbols = m.symbols := by
  unfold nest
  split
  · split <;> rfl
  · rfl

private theorem symbols_applyBuiltin (b : Builtin) (args : List Value) (context : Held) :
    (applyBuiltin setting m ws b args context).machine.symbols = m.symbols := by
  unfold applyBuiltin
  split <;> rfl

private theorem symbols_nextOperand (b : Builtin) (site : CallSite) (base count : Nat)
    (rest : Value) :
    (nextOperand setting m ws b site base count rest).machine.symbols = m.symbols := by
  unfold nextOperand
  split
  · split <;> rename_i hpop <;> have hsymbols := congrArg (fun p => p.2.symbols) hpop
    · rw [symbols_applyBuiltin]
      exact hsymbols.symm
    · exact hsymbols.symm
  · exact symbols_nest setting m _ _ _
  · rfl

private theorem symbols_nextBody (frame : FrameId) (context : Held) (inPlace : Bool)
    (body : List Value) :
    (nextBody setting m ws frame context inPlace body).machine.symbols = m.symbols := by
  unfold nextBody
  split
  · rfl
  · split
    · rfl
    · exact symbols_nest setting m _ _ _
  · exact symbols_nest setting m _ _ _

private theorem symbols_applyClosure (c : ClosureId) (args : List Value) (context : Held)
    (inPlace : Bool) :
    (applyClosure setting m ws c args context inPlace).machine.symbols = m.symbols := by
  unfold applyClosure
  dsimp only
  split <;> rename_i hbind <;> have hsymbols := congrArg (fun p => p.2.symbols) hbind
  · exact hsymbols.symm
  · split
    · exact hsymbols.symm
    · rw [symbols_nextBody]
      exact hsymbols.symm

private theorem symbols_nextArgument (c : ClosureId) (site : CallSite) (reversed : List Value)
    (rest : Value) :
    (nextArgument setting m ws c site reversed rest).machine.symbols = m.symbols := by
  unfold nextArgument
  split
  · exact symbols_applyClosure setting m ws _ _ _ _
  · exact symbols_nest setting m _ _ _
  · rfl

private theorem symbols_call (procedure : Value) (args : List Value) :
    (call setting m ws procedure args).machine.symbols = m.symbols := by
  unfold call
  split
  · exact symbols_applyBuiltin setting m ws _ _ _
  · exact symbols_applyClosure setting m ws _ _ _ _
  · rfl

private theorem symbols_evalExpr (expr : Value) (env : FrameId) :
    (evalExpr setting m ws expr env).machine.symbols = m.symbols := by
  unfold evalExpr
  split
  · rfl
  · exact symbols_nest setting m _ _ _
  · rfl

private theorem symbols_deliver (w : Waiting) (result : Except EvalError Value) :
    (deliver setting m ws w result).machine.symbols = m.symbols := by
  unfold deliver
  split
  · rfl
  · rfl
  · split
    · unfold applyHead
      split
      · exact symbols_nextOperand setting m ws _ _ _ _ _
      · rfl
      · exact symbols_nextArgument setting m ws _ _ _ _
      · rfl
    · rfl
  · split
    · exact symbols_nextOperand setting _ ws _ _ _ _ _
    · rfl
  · split
    · exact symbols_nextArgument setting m ws _ _ _ _
    · rfl
  · split
    · exact symbols_nextBody setting m ws _ _ _ _
    · rfl

variable {setting} {m} {ws}

private theorem grows_runNative (h : m.symbols.InOrder) (program : Native Outcome)
    (context : Held) :
    m.symbols.Grows (runNative setting m ws program context).machine.symbols := by
  have hsame := h.grows_refl
  unfold runNative
  dsimp only
  split
  · exact hsame
  · exact hsame
  · exact hsame
  · exact hsame
  · rw [symbols_nest]
    exact hsame
  · rw [symbols_call]
    exact hsame
  · next name store resume _ =>
    unfold Machine.intern
    dsimp only
    split <;> rename_i hintern <;> exact h.grows_of_intern hintern
  · exact hsame
  · exact hsame

/-- A step only adds to the symbol table. -/
theorem grows_step (setting : Setting) {s : State} (h : s.machine.symbols.InOrder) :
    s.machine.symbols.Grows (s.step setting).machine.symbols := by
  obtain ⟨m, control, ws⟩ := s
  cases control with
  | eval expr env =>
    change m.symbols.Grows (evalExpr setting _ ws expr env).machine.symbols
    rw [symbols_evalExpr]
    exact h.grows_refl
  | native program context => exact grows_runNative h program context
  | answer result =>
    cases ws with
    | nil => exact h.grows_refl
    | cons w ws =>
      change m.symbols.Grows (deliver setting m ws w result).machine.symbols
      rw [symbols_deliver]
      exact h.grows_refl

private theorem Finishes.grows {base : List Waiting} {s : State} {result : Except EvalError Value}
    (hfin : Finishes setting base s result m) (h : s.machine.symbols.InOrder) :
    s.machine.symbols.Grows m.symbols := by
  induction hfin with
  | now m result => exact h.grows_refl
  | later _ _ ih =>
    have hstep := grows_step setting h
    exact hstep.trans (ih hstep.inOrder)

end State

theorem Interpreter.grows_evaluate {i j : Interpreter} {fuel : Nat} {caller : Held} {expr : Value}
    {env : FrameId} {result : Except EvalError Value} (h : i.symbols.InOrder)
    (heval : i.evaluate fuel caller expr env = some (result, j)) : i.symbols.Grows j.symbols := by
  rw [evaluate_eq_runFrom] at heval
  have hgrows := (runFrom_eq_some heval).1.grows (by rw [State.symbols_nest]; exact h)
  rwa [State.symbols_nest] at hgrows

end MiniScheme
