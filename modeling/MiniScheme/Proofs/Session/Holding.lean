import MiniScheme.Proofs.Machine.Alongside
import MiniScheme.Proofs.Session.Runs
/-! # Holding other values

An evaluation notices what its caller holds on to in one way only: a definition asks whether anybody
else holds the closure that it is to name. Up to the first such question that is answered differently
an evaluation is, step by step, the same for two callers, and so is the run of a text for two choices
of the values that are held meanwhile.
-/
namespace MiniScheme

namespace State

variable {setting : Setting} {caller' : Held} {s : State}

private theorem step_of_not_parts (h : ¬ Parts setting { setting with caller := caller' } s s) :
    s.step { setting with caller := caller' } = s.step setting := by
  obtain ⟨m, control, ws⟩ := s
  cases control with
  | eval expr env => rfl
  | answer result =>
    cases ws with
    | nil => rfl
    | cons w ws => cases w <;> rfl
  | native program context =>
    simp only [step, runNative]
    cases hprogram : program m.store with
    | done outcome store => cases outcome <;> rfl
    | isSole c held store resume =>
      have hsole : store.isSoleReference c (m.roots caller' (context.append held) ws) =
          store.isSoleReference c (m.roots setting.caller (context.append held) ws) := by
        apply Classical.byContradiction
        intro hne
        apply h
        refine ⟨.refl m, c, _, ⟨program, context, held, store, resume, rfl, hprogram, rfl⟩, ?_⟩
        exact ⟨program, context, held, store, resume, rfl, hprogram, (Bool.eq_not.mpr hne).symm⟩
      exact congrArg (fun sole => (⟨{ m with store := store }, .native (resume sole) context, ws⟩ :
        State)) hsole
    | _ => rfl

private theorem after_of_not_parts {n : Nat} (h : ∀ k < n,
      ¬ Parts setting { setting with caller := caller' } (after setting k s) (after setting k s)) :
    after { setting with caller := caller' } n s = after setting n s := by
  induction n generalizing s with
  | zero => rfl
  | succ n ih =>
    have hstep : s.step { setting with caller := caller' } = s.step setting :=
      step_of_not_parts (h 0 (Nat.succ_pos n))
    rw [after, after, hstep]
    exact ih fun k hk => h (k + 1) (Nat.succ_lt_succ hk)

private theorem run_of_not_parts (h : ∀ k,
      ¬ Parts setting { setting with caller := caller' } (after setting k s) (after setting k s))
    (fuel : Nat) : s.run { setting with caller := caller' } fuel = s.run setting fuel := by
  cases fuel with
  | zero => rfl
  | succ fuel => rw [run_eq_after, run_eq_after, after_of_not_parts fun k _ => h k]

/-- The next step asks whether somebody else holds a closure. -/
def inquires (s : State) : Bool :=
  match s.control with
  | .native program _ =>
    match program s.machine.store with
    | .isSole .. => true
    | _ => false
  | _ => false

/-- The evaluation is finished within `fuel` steps, and none of them asks who holds a closure. -/
def finishesQuietly (setting : Setting) : (fuel : Nat) → State → Bool
  | 0, _ => false
  | fuel + 1, s => s.result?.isSome || (!s.inquires && finishesQuietly setting fuel (s.step setting))

private theorem inquires_of_asks {c : ClosureId} {sole : Bool} (h : s.Asks setting c sole) :
    s.inquires = true := by
  obtain ⟨program, context, held, store, resume, hcontrol, hprogram, -⟩ := h
  simp [inquires, hcontrol, hprogram]

private theorem not_asks_of_finishesQuietly {fuel : Nat} (h : finishesQuietly setting fuel s = true)
    (n : Nat) {c : ClosureId} {sole : Bool} : ¬ (after setting n s).Asks setting c sole := by
  induction fuel generalizing s n with
  | zero => simp [finishesQuietly] at h
  | succ fuel ih =>
    rw [finishesQuietly, Bool.or_eq_true, Bool.and_eq_true, Bool.not_eq_true'] at h
    rcases h with hend | ⟨hquiet, hrest⟩
    · obtain ⟨result, hresult⟩ := Option.isSome_iff_exists.mp hend
      rw [after_of_result hresult, result?_eq_some_iff.mp hresult]
      rintro ⟨program, context, held, store, resume, hcontrol, -⟩
      cases hcontrol
    · cases n with
      | zero =>
        intro hasks
        have hloud : s.inquires = true := inquires_of_asks hasks
        simp [hquiet] at hloud
      | succ n => exact ih hrest n

end State

namespace Interpreter

/-- Two callers have `expr` evaluated in the same steps, until the question whether somebody else holds
a closure is answered differently for them. -/
def Divides (i : Interpreter) (caller caller' : Held) (expr : Value) (env : FrameId) : Prop :=
  ∃ n, (∀ k ≤ n, i.evaluating caller' expr env k = i.evaluating caller expr env k) ∧
    State.Parts (i.setting caller) (i.setting caller') (i.evaluating caller expr env n)
      (i.evaluating caller' expr env n)

variable {i : Interpreter} {caller caller' : Held} {expr : Value} {env : FrameId}

theorem Divides.symm (h : i.Divides caller caller' expr env) : i.Divides caller' caller expr env := by
  obtain ⟨n, hsame, hparts⟩ := h
  exact ⟨n, fun k hk => (hsame k hk).symm, hparts.symm⟩

private theorem evaluate_eq_of_not_divides (h : ¬ i.Divides caller caller' expr env) (fuel : Nat) :
    i.evaluate fuel caller' expr env = i.evaluate fuel caller expr env := by
  classical
  have hnever (n : Nat) : ¬ State.Parts (i.setting caller) (i.setting caller')
      (i.evaluating caller expr env n) (i.evaluating caller expr env n) := by
    intro hn
    -- The first such moment is one that both callers get to.
    have hex := Exists.intro (p := fun n => State.Parts (i.setting caller) (i.setting caller')
      (i.evaluating caller expr env n) (i.evaluating caller expr env n)) n hn
    have hsame (k : Nat) (hk : k ≤ Nat.find hex) :
        i.evaluating caller' expr env k = i.evaluating caller expr env k :=
      State.after_of_not_parts fun j hj => Nat.find_min hex (Nat.lt_of_lt_of_le hj hk)
    refine h ⟨Nat.find hex, hsame, ?_⟩
    rw [hsame _ (Nat.le_refl _)]
    exact Nat.find_spec hex
  have hrun : (State.nest (i.setting caller') i.machine [] expr env).run (i.setting caller') fuel =
      (State.nest (i.setting caller) i.machine [] expr env).run (i.setting caller) fuel :=
    State.run_of_not_parts hnever fuel
  simp only [evaluate, runFrom_eq_map, hrun]

end Interpreter

namespace Session

/-- Two runs of a text from `i` that hold on to different values are the same until the evaluation of
one datum, under way in both, asks whether somebody else holds a closure and is answered differently. -/
inductive Parting (hold hold' : Done → Nat → List Value) : Interpreter → Reader → Done → Prop
  | here {i i' : Interpreter} {r after : Reader} {done : Done} {datum : Value}
    (read : i.readValue r = (.ok (some datum), after, i'))
    (divides : i'.Divides ⟨hold done after.cursor.remaining, []⟩
      ⟨hold' done after.cursor.remaining, []⟩ datum i'.global) : Parting hold hold' i r done
  | later {i i' i'' : Interpreter} {r after : Reader} {done : Done} {datum v : Value}
    {fuel : Nat} (read : i.readValue r = (.ok (some datum), after, i'))
    (eval : i'.evaluate fuel ⟨hold done after.cursor.remaining, []⟩ datum i'.global =
      some (.ok v, i''))
    (eval' : i'.evaluate fuel ⟨hold' done after.cursor.remaining, []⟩ datum i'.global =
      some (.ok v, i''))
    (rest : Parting hold hold' i'' after ((after.cursor.remaining, v) :: done)) :
    Parting hold hold' i r done

variable {hold hold' : Done → Nat → List Value} {i j : Interpreter} {r : Reader}
  {done final : Done} {ending : Ending}

theorem Parting.symm (h : Parting hold hold' i r done) : Parting hold' hold i r done := by
  induction h with
  | here read divides => exact .here read divides.symm
  | later read eval eval' _ ih => exact .later read eval' eval ih

private theorem Runs.of_not_parting (h : Runs hold i r done ending final j)
    (hpart : ¬ Parting hold hold' i r done) : Runs hold' i r done ending final j := by
  induction h with
  | finished read => exact .finished read
  | unreadable read => exact .unreadable read
  | failed read eval =>
    rw [← Interpreter.evaluate_eq_of_not_divides fun h => hpart (.here read h)] at eval
    exact .failed read eval
  | next read eval _ ih =>
    have eval' := eval
    rw [← Interpreter.evaluate_eq_of_not_divides fun h => hpart (.here read h)] at eval'
    exact .next read eval' (ih fun h => hpart (.later read eval eval' h))

/-- Runs of one text that hold on to different values come to the same end, or to none, unless they
part. -/
theorem runs_iff_of_not_parting (h : ¬ Parting hold hold' i r done) :
    Runs hold i r done ending final j ↔ Runs hold' i r done ending final j :=
  ⟨fun hruns => hruns.of_not_parting h, fun hruns => hruns.of_not_parting fun hpart => h hpart.symm⟩

/-- The run of a text ends, each evaluation in it within `fuel` steps, and none of them asks who holds
a closure. -/
def runsQuietly (hold : Done → Nat → List Value) (fuel : Nat) (i : Interpreter) (r : Reader)
    (done : Done) : Bool :=
  match fuel with
  | 0 => false
  | fuel + 1 =>
    match i.readValue r with
    | (.ok (some datum), after, i) =>
      let setting := i.setting ⟨hold done after.cursor.remaining, []⟩
      (State.nest setting i.machine [] datum i.global).finishesQuietly setting fuel &&
        match i.evaluate fuel ⟨hold done after.cursor.remaining, []⟩ datum i.global with
        | some (.ok v, i) => runsQuietly hold fuel i after ((after.cursor.remaining, v) :: done)
        | some (.error _, _) => true
        | none => false
    | _ => true

/-- Where no question is asked, no two runs part. -/
theorem not_parting_of_runsQuietly {fuel : Nat} (h : runsQuietly hold fuel i r done = true) :
    ¬ Parting hold hold' i r done := by
  intro hpart
  induction hpart generalizing fuel with
  | here read divides =>
    cases fuel with
    | zero => simp [runsQuietly] at h
    | succ fuel =>
      simp only [runsQuietly, read, Bool.and_eq_true] at h
      obtain ⟨n, -, -, c, sole, hasks, -⟩ := divides
      exact State.not_asks_of_finishesQuietly h.1 n hasks
  | @later i i' i'' r after done datum v fuel' read eval _ _ ih =>
    cases fuel with
    | zero => simp [runsQuietly] at h
    | succ fuel =>
      simp only [runsQuietly, read, Bool.and_eq_true] at h
      cases heval : i'.evaluate fuel ⟨hold done after.cursor.remaining, []⟩ datum i'.global with
      | none => simp [heval] at h
      | some answer =>
        obtain rfl : answer = (.ok v, i'') := Interpreter.evaluate_unique heval eval
        rw [heval] at h
        exact ih h.2

end Session
end MiniScheme
