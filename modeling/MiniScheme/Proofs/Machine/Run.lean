import MiniScheme.Interpreter
/-! # Runs of the machine

An evaluation that was started above some waiting work is finished when its answer is about to be
handed to that work. `Finishes` relates a state to the first such answer; the loop `run` is the case
where nothing waits.
-/
namespace MiniScheme.State

/-- The state is about to hand an answer to `base`. -/
def AnswersTo (base : List Waiting) (s : State) : Prop :=
  ∃ result, s.control = .answer result ∧ s.waiting = base

/-- Steps from a state first answer `base` with this result, and leave this machine. -/
inductive Finishes (setting : Setting) (base : List Waiting) :
    State → Except EvalError Value → Machine → Prop
  | now (m : Machine) (result : Except EvalError Value) :
    Finishes setting base ⟨m, .answer result, base⟩ result m
  | later {s : State} {result : Except EvalError Value} {m : Machine} (open_ : ¬ s.AnswersTo base)
    (rest : Finishes setting base (s.step setting) result m) : Finishes setting base s result m

def after (setting : Setting) : (n : Nat) → State → State
  | 0, s => s
  | n + 1, s => after setting n (s.step setting)

theorem after_add (setting : Setting) (k n : Nat) (s : State) :
    after setting (k + n) s = after setting n (after setting k s) := by
  induction k generalizing s with
  | zero => rw [Nat.zero_add, after]
  | succ k ih => rw [Nat.succ_add, after, after, ih]

theorem after_succ (setting : Setting) (n : Nat) (s : State) :
    after setting (n + 1) s = (after setting n s).step setting :=
  after_add setting n 1 s

theorem Finishes.exists_after {setting : Setting} {base : List Waiting} {s : State}
    {result : Except EvalError Value} {m : Machine} (h : Finishes setting base s result m) :
    ∃ n, after setting n s = ⟨m, .answer result, base⟩ := by
  induction h with
  | now m result => exact ⟨0, rfl⟩
  | later _ _ ih =>
    obtain ⟨n, hn⟩ := ih
    exact ⟨n + 1, hn⟩

theorem result?_eq_some_iff {s : State} {result : Except EvalError Value} :
    s.result? = some result ↔ s = ⟨s.machine, .answer result, []⟩ := by
  obtain ⟨m, control, waiting⟩ := s
  cases control <;> cases waiting <;> simp [result?]

theorem after_of_result {setting : Setting} {s : State} {result : Except EvalError Value}
    (h : s.result? = some result) (n : Nat) : after setting n s = s := by
  induction n with
  | zero => rfl
  | succ n ih =>
    have hstep : s.step setting = s := by
      rw [result?_eq_some_iff.mp h]
      rfl
    rw [after, hstep, ih]

theorem finishes_of_run {setting : Setting} {fuel : Nat} {s : State}
    {result : Except EvalError Value} {m : Machine}
    (h : s.run setting fuel = some (result, m)) : Finishes setting [] s result m := by
  induction fuel generalizing s with
  | zero => simp [run] at h
  | succ fuel ih =>
    rw [run] at h
    cases hresult : s.result? with
    | some found =>
      rw [hresult] at h
      simp only [Option.some.injEq, Prod.mk.injEq] at h
      obtain ⟨rfl, rfl⟩ := h
      rw [result?_eq_some_iff.mp hresult]
      exact .now _ _
    | none =>
      rw [hresult] at h
      refine .later ?_ (ih h)
      rintro ⟨found, hcontrol, hwaiting⟩
      simp [result?, hcontrol, hwaiting] at hresult

theorem run_eq_after (setting : Setting) (fuel : Nat) (s : State) :
    s.run setting (fuel + 1) =
      (after setting fuel s).result?.map (fun result => (result, (after setting fuel s).machine)) := by
  induction fuel generalizing s with
  | zero =>
    rw [run, after]
    cases s.result? <;> rfl
  | succ fuel ih =>
    rw [run]
    cases hresult : s.result? with
    | some result => rw [after_of_result hresult, hresult]; rfl
    | none => exact ih _

theorem run_mono {setting : Setting} {fuel fuel' : Nat} {s : State}
    {finished : Except EvalError Value × Machine} (hle : fuel ≤ fuel')
    (h : s.run setting fuel = some finished) : s.run setting fuel' = some finished := by
  induction fuel generalizing s fuel' with
  | zero => simp [run] at h
  | succ fuel ih =>
    obtain ⟨fuel', rfl⟩ := Nat.exists_eq_add_of_le' (Nat.le_trans (Nat.succ_pos fuel) hle)
    rw [run] at h ⊢
    cases hresult : s.result? with
    | some result =>
      rw [hresult] at h
      exact h
    | none =>
      rw [hresult] at h
      exact ih (Nat.le_of_succ_le_succ hle) h

/-- Up to any moment an evaluation has either finished or not answered yet. -/
theorem finishes_or_open (setting : Setting) (base : List Waiting) (n : Nat) (s : State) :
    (∃ k ≤ n, ∃ result m, Finishes setting base s result m ∧
      after setting k s = ⟨m, .answer result, base⟩) ∨
      ∀ k ≤ n, ¬ (after setting k s).AnswersTo base := by
  induction n generalizing s with
  | zero =>
    by_cases hs : s.AnswersTo base
    · obtain ⟨m, control, waiting⟩ := s
      obtain ⟨result, rfl, rfl⟩ := hs
      exact .inl ⟨0, Nat.le_refl _, result, m, .now m result, rfl⟩
    · right
      intro k hk
      rw [Nat.le_zero.mp hk]
      exact hs
  | succ n ih =>
    by_cases hs : s.AnswersTo base
    · obtain ⟨m, control, waiting⟩ := s
      obtain ⟨result, rfl, rfl⟩ := hs
      exact .inl ⟨0, Nat.zero_le _, result, m, .now m result, rfl⟩
    · rcases ih (s.step setting) with ⟨k, hk, result, m, hfin, hafter⟩ | hopen
      · exact .inl ⟨k + 1, by omega, result, m, .later hs hfin, hafter⟩
      · right
        intro k hk
        cases k with
        | zero => exact hs
        | succ k => exact hopen k (by omega)

end MiniScheme.State

namespace MiniScheme.Interpreter

open State (Finishes)

theorem runFrom_eq_map (i : Interpreter) (fuel : Nat) (caller : Held)
    (start : Setting → Machine → State) :
    i.runFrom fuel caller start =
      ((start (i.setting caller) i.machine).run (i.setting caller) fuel).map
        (fun finished => (finished.1, { i with machine := finished.2 })) := by
  unfold runFrom
  dsimp only
  cases (start (i.setting caller) i.machine).run (i.setting caller) fuel <;> rfl

theorem runFrom_eq_some {fuel : Nat} {i j : Interpreter} {caller : Held}
    {start : Setting → Machine → State} {result : Except EvalError Value}
    (h : i.runFrom fuel caller start = some (result, j)) :
    Finishes (i.setting caller) [] (start (i.setting caller) i.machine) result j.machine ∧
      j = { i with machine := j.machine } := by
  unfold runFrom at h
  dsimp only at h
  split at h
  · next m hrun =>
    simp only [Option.some.injEq, Prod.mk.injEq] at h
    obtain ⟨rfl, rfl⟩ := h
    exact ⟨State.finishes_of_run hrun, rfl⟩
  · simp at h

private theorem runFrom_mono {fuel fuel' : Nat} {i : Interpreter} {caller : Held}
    {start : Setting → Machine → State} {finished : Except EvalError Value × Interpreter}
    (hle : fuel ≤ fuel') (h : i.runFrom fuel caller start = some finished) :
    i.runFrom fuel' caller start = some finished := by
  unfold runFrom at h ⊢
  dsimp only at h ⊢
  split at h
  · next result m hrun =>
    rw [State.run_mono hle hrun]
    exact h
  · simp at h

theorem evaluate_mono {fuel fuel' : Nat} {i : Interpreter} {caller : Held} {expr : Value}
    {env : FrameId} {finished : Except EvalError Value × Interpreter} (hle : fuel ≤ fuel')
    (h : i.evaluate fuel caller expr env = some finished) :
    i.evaluate fuel' caller expr env = some finished := by
  unfold evaluate at h ⊢
  dsimp only at h ⊢
  cases hrun : i.runFrom fuel caller (fun setting m => State.nest setting m [] expr env) with
  | none => simp [hrun] at h
  | some result =>
    rw [runFrom_mono hle hrun]
    rw [hrun] at h
    exact h

/-- The state `n` steps into the evaluation of `expr` in `env`. -/
def evaluating (i : Interpreter) (caller : Held) (expr : Value) (env : FrameId) (n : Nat) : State :=
  State.after (i.setting caller) n (State.nest (i.setting caller) i.machine [] expr env)

theorem evaluating_succ (i : Interpreter) (caller : Held) (expr : Value) (env : FrameId) (n : Nat) :
    i.evaluating caller expr env (n + 1) =
      (i.evaluating caller expr env n).step (i.setting caller) :=
  State.after_succ _ _ _

end MiniScheme.Interpreter
