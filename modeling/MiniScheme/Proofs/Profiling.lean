import MiniScheme.Proofs.Alike.Building
import MiniScheme.Proofs.Machine.Watched
/-! # Profiling and output are invisible

Interpreters that differ in their counters and in their output only pass through the same states and
come to the same results, whatever text they evaluate. What an interpreter prints is the sequence of
texts that native code hands over along the way, so a buffer holds their concatenation, and whether
there are counters makes no difference to it.
-/
namespace MiniScheme

namespace State

variable (setting : Setting) {s s' : State} {output : Output}

private theorem Beside.unwatched_eq (h : Beside output s' s) : s'.unwatched = s.unwatched := by
  obtain ⟨counters, rfl⟩ := h
  rfl

private theorem eq_watched_of_unwatched_eq (h : s'.unwatched = s.unwatched) :
    s' = s.watched s'.machine.counters s'.machine.output :=
  congrArg (·.watched s'.machine.counters s'.machine.output) h

private theorem unwatched_step (h : s'.unwatched = s.unwatched) :
    (s'.step setting).unwatched = (s.step setting).unwatched := by
  rw [eq_watched_of_unwatched_eq h]
  exact (beside_step setting _ _ s).unwatched_eq

private theorem result?_unwatched (s : State) : s.unwatched.result? = s.result? := rfl

theorem printed?_unwatched (s : State) : s.unwatched.printed? = s.printed? := rfl

private theorem result?_eq_of_unwatched_eq (h : s'.unwatched = s.unwatched) :
    s'.result? = s.result? := by
  rw [← result?_unwatched, h, result?_unwatched]

private theorem output_step (s : State) :
    (s.step setting).machine.output = s.machine.output.print (s.printed?.getD "") := by
  obtain ⟨counters, hstep⟩ := beside_step setting s.machine.counters s.machine.output s
  exact congrArg (·.machine.output) hstep

private theorem output_nest (m : Machine) (ws : List Waiting) (expr : Value)
    (env : FrameId) : (nest setting m ws expr env).machine.output = m.output := by
  obtain ⟨counters, hnest⟩ := beside_nest setting m m.counters m.output ws expr env
  exact congrArg (·.machine.output) hnest

/-- The states that `run` looks at. -/
def trail (setting : Setting) : (fuel : Nat) → State → List State
  | 0, _ => []
  | fuel + 1, s =>
    match s.result? with
    | some _ => [s]
    | none => s :: trail setting fuel (s.step setting)

private theorem unwatched_trail (h : s'.unwatched = s.unwatched) (fuel : Nat) :
    (s'.trail setting fuel).map unwatched = (s.trail setting fuel).map unwatched := by
  induction fuel generalizing s s' with
  | zero => rfl
  | succ fuel ih =>
    rw [trail, trail, result?_eq_of_unwatched_eq h]
    cases s.result? with
    | some result => simp [h]
    | none => simp [h, ih (unwatched_step setting h)]

private theorem unwatched_run (h : s'.unwatched = s.unwatched) (fuel : Nat) :
    (s'.run setting fuel).map (fun finished => (finished.1, finished.2.watched none .silent)) =
      (s.run setting fuel).map (fun finished => (finished.1, finished.2.watched none .silent)) := by
  induction fuel generalizing s s' with
  | zero => rfl
  | succ fuel ih =>
    rw [run, run, result?_eq_of_unwatched_eq h]
    cases s.result? with
    | some result => exact congrArg (fun u => some (result, u.machine)) h
    | none => exact ih (unwatched_step setting h)

end State

/-- States that follow each other's output: it is `o` before the first of them, and `o'` when all
have printed. -/
inductive Output.Follows : Output → List State → Output → Prop
  | nil (o : Output) : Follows o [] o
  | cons (s : State) {states : List State} {o' : Output}
    (rest : Follows (s.machine.output.print (s.printed?.getD "")) states o') :
    Follows s.machine.output (s :: states) o'

namespace Output.Follows

variable {o o' o'' : Output} {states states' : List State} {s : State}

private theorem append (h : Follows o states o') (h' : Follows o' states' o'') :
    Follows o (states ++ states') o'' := by
  induction h with
  | nil o => exact h'
  | cons s _ ih => exact .cons s (ih h')

private theorem exists_between (h : Follows o (states ++ states') o'') :
    ∃ o', Follows o states o' ∧ Follows o' states' o'' := by
  induction states generalizing o with
  | nil => exact ⟨o, .nil o, h⟩
  | cons s states ih =>
    cases h with
    | cons _ rest =>
      obtain ⟨o', hfirst, hrest⟩ := ih rest
      exact ⟨o', .cons s hfirst, hrest⟩

theorem eq_print_join (h : Follows o states o') :
    o' = o.print (String.join (states.filterMap State.printed?)) := by
  induction h with
  | nil o => exact (print_empty o).symm
  | cons s _ ih =>
    rw [ih, print_print]
    cases hprinted : s.printed? <;> simp [hprinted]

theorem output_eq (h : Follows o (states ++ s :: states') o') :
    s.machine.output = o.print (String.join (states.filterMap State.printed?)) := by
  obtain ⟨between, hbefore, hrest⟩ := h.exists_between
  cases hrest with
  | cons _ _ => exact hbefore.eq_print_join

end Output.Follows

namespace State

/-- The states of a run follow each other's output, up to the output that it leaves. -/
theorem follows_trail (setting : Setting) (fuel : Nat) (s : State) :
    ∃ o, Output.Follows s.machine.output (s.trail setting fuel) o ∧
      ∀ finished, s.run setting fuel = some finished → finished.2.output = o := by
  induction fuel generalizing s with
  | zero => exact ⟨_, .nil _, by simp [run]⟩
  | succ fuel ih =>
    rw [trail, run]
    cases hresult : s.result? with
    | some result =>
      have hprinted : s.printed? = none := by
        rw [result?_eq_some_iff.mp hresult]
        rfl
      -- A finished state is passed too, but an answer prints nothing.
      refine ⟨_, .cons s (.nil _), ?_⟩
      rintro finished ⟨⟩
      rw [hprinted, Option.getD_none, Output.print_empty]
    | none =>
      obtain ⟨o, hfollows, hrun⟩ := ih (s.step setting)
      rw [output_step] at hfollows
      exact ⟨o, .cons s hfollows, hrun⟩

end State

namespace Interpreter

def watched (i : Interpreter) (counters : Option Counters) (output : Output) : Interpreter :=
  { i with machine := i.machine.watched counters output }

def unwatched (i : Interpreter) : Interpreter := i.watched none .silent

def unwatchedEnd (finished : Except EvalError Value × Interpreter) :
    Except EvalError Value × Interpreter :=
  (finished.1, finished.2.unwatched)

/-- The states that evaluating what is left of a text passes through as far as the steps suffice. -/
def trail (fuel : Nat) (i : Interpreter) (reader : Reader) (last : Value) : List State :=
  match fuel with
  | 0 => []
  | fuel + 1 =>
    match i.readValue reader with
    | (.ok (some datum), reader, i) =>
      let setting := i.setting ⟨[last], []⟩
      (State.nest setting i.machine [] datum i.global).trail setting fuel ++
        match i.evaluate fuel ⟨[last], []⟩ datum i.global with
        | some (.ok v, i) => i.trail fuel reader v
        | _ => []
    | _ => []

variable {i i' : Interpreter} {counters : Option Counters} {output : Output}

private theorem unwatchedEnd_cases {x y : Option (Except EvalError Value × Interpreter)}
    (h : x.map unwatchedEnd = y.map unwatchedEnd) :
    (x = none ∧ y = none) ∨
      ∃ result j' j, x = some (result, j') ∧ y = some (result, j) ∧
        j'.unwatched = j.unwatched := by
  cases x with
  | none =>
    cases y with
    | none => exact .inl ⟨rfl, rfl⟩
    | some b => simp at h
  | some a =>
    cases y with
    | none => simp at h
    | some b =>
      obtain ⟨hresult, hj⟩ : a.1 = b.1 ∧ a.2.unwatched = b.2.unwatched := by
        simpa [unwatchedEnd] using h
      exact .inr ⟨b.1, a.2, b.2, by rw [← hresult], rfl, hj⟩

private theorem eq_watched_of_unwatched_eq (h : i'.unwatched = i.unwatched) :
    i' = i.watched i'.machine.counters i'.machine.output :=
  congrArg (·.watched i'.machine.counters i'.machine.output) h

theorem global_watched (i : Interpreter) (counters : Option Counters) (output : Output) :
    (i.watched counters output).global = i.global := rfl

private theorem readValue_watched (i : Interpreter) (counters : Option Counters) (output : Output)
    (reader : Reader) :
    (i.watched counters output).readValue reader =
      ((i.readValue reader).1, (i.readValue reader).2.1,
        (i.readValue reader).2.2.watched counters output) := by
  have hsymbols : (i.watched counters output).symbols = i.symbols := rfl
  rw [readValue_eq, readValue_eq, hsymbols]
  rcases reader.read i.symbols with ⟨outcome, after, symbols⟩
  match outcome with
  | .ok (some d) => rfl
  | .ok none => rfl
  | .error e => rfl

theorem unwatched_evaluate (h : i'.unwatched = i.unwatched) (fuel : Nat) (caller : Held)
    (expr : Value) (env : FrameId) :
    (i'.evaluate fuel caller expr env).map unwatchedEnd =
      (i.evaluate fuel caller expr env).map unwatchedEnd := by
  have hnest := (State.beside_nest (i.setting caller) i.machine i'.machine.counters
    i'.machine.output [] expr env).unwatched_eq
  have hrun := congrArg (Option.map fun finished => (finished.1, { i with machine := finished.2 }))
    (State.unwatched_run (i.setting caller) hnest fuel)
  rw [Option.map_map, Option.map_map] at hrun
  rw [eq_watched_of_unwatched_eq h, evaluate_eq_runFrom, evaluate_eq_runFrom, runFrom_eq_map,
    runFrom_eq_map, Option.map_map, Option.map_map]
  exact hrun

theorem unwatched_evalRest (h : i'.unwatched = i.unwatched) (fuel : Nat) (reader : Reader)
    (last : Value) :
    (i'.trail fuel reader last).map State.unwatched =
        (i.trail fuel reader last).map State.unwatched ∧
      (i'.evalRest fuel reader last).map unwatchedEnd =
        (i.evalRest fuel reader last).map unwatchedEnd := by
  induction fuel generalizing i i' reader last with
  | zero => exact ⟨rfl, rfl⟩
  | succ fuel ih =>
    rw [eq_watched_of_unwatched_eq h, trail, trail, evalRest, evalRest, readValue_watched]
    generalize i'.machine.counters = counters
    generalize i'.machine.output = output
    rcases i.readValue reader with ⟨outcome, after, j⟩
    rcases outcome with e | _ | datum
    · exact ⟨rfl, rfl⟩
    · exact ⟨rfl, rfl⟩
    · have hj : (j.watched counters output).unwatched = j.unwatched := rfl
      have hstates := State.unwatched_trail (j.setting ⟨[last], []⟩)
        (State.beside_nest (j.setting ⟨[last], []⟩) j.machine counters output [] datum
          j.global).unwatched_eq fuel
      -- What follows the datum depends on its result and on the interpreter that it leaves.
      dsimp only [global_watched]
      rcases unwatchedEnd_cases (unwatched_evaluate hj fuel ⟨[last], []⟩ datum j.global) with
        ⟨hx, hy⟩ | ⟨result, k', k, hx, hy, hk⟩
      · rw [hx, hy, List.append_nil, List.append_nil]
        exact ⟨hstates, rfl⟩
      · rw [hx, hy, List.map_append, List.map_append]
        cases result with
        | ok v =>
          obtain ⟨htrail, hrest⟩ := ih hk after v
          exact ⟨congrArg₂ (· ++ ·) hstates htrail, hrest⟩
        | error e => exact ⟨congrArg (· ++ []) hstates, by simp [unwatchedEnd, hk]⟩

private theorem output_readValue (i : Interpreter) (reader : Reader) :
    (i.readValue reader).2.2.machine.output = i.machine.output :=
  congrArg (·.2.2.machine.output)
    (readValue_watched i i.machine.counters i.machine.output reader)

/-- The states of a text follow each other's output, up to the output that it leaves. -/
theorem follows_trail (fuel : Nat) (i : Interpreter) (reader : Reader) (last : Value) :
    ∃ o, Output.Follows i.machine.output (i.trail fuel reader last) o ∧
      ∀ result j, i.evalRest fuel reader last = some (result, j) → j.machine.output = o := by
  induction fuel generalizing i reader last with
  | zero => exact ⟨_, .nil _, by simp [evalRest]⟩
  | succ fuel ih =>
    have houtput := output_readValue i reader
    rw [trail, evalRest]
    generalize i.readValue reader = read at houtput ⊢
    obtain ⟨outcome, after, j⟩ := read
    dsimp only at houtput
    rcases outcome with e | _ | datum
    · exact ⟨_, .nil _, by rintro result k ⟨⟩; exact houtput⟩
    · exact ⟨_, .nil _, by rintro result k ⟨⟩; exact houtput⟩
    · obtain ⟨o, hfollows, hrun⟩ := State.follows_trail (j.setting ⟨[last], []⟩) fuel
        (State.nest (j.setting ⟨[last], []⟩) j.machine [] datum j.global)
      rw [State.output_nest, houtput] at hfollows
      have heval : ∀ result k, j.evaluate fuel ⟨[last], []⟩ datum j.global = some (result, k) →
          k.machine.output = o := by
        intro result k hk
        rw [evaluate_eq_runFrom, runFrom_eq_map] at hk
        obtain ⟨finished, hfinished, hk⟩ := Option.map_eq_some_iff.mp hk
        obtain ⟨rfl, rfl⟩ : _ ∧ _ := by simpa using hk
        exact hrun finished hfinished
      dsimp only
      rcases hevaluate : j.evaluate fuel ⟨[last], []⟩ datum j.global with _ | ⟨_ | v, k⟩
      · exact ⟨o, by simpa using hfollows, by simp⟩
      · refine ⟨o, by simpa using hfollows, ?_⟩
        rintro result l ⟨⟩
        exact heval _ _ hevaluate
      · obtain ⟨o', hrest, hend⟩ := ih k after v
        rw [heval _ _ hevaluate] at hrest
        exact ⟨o', hfollows.append hrest, hend⟩

/-! Definitions made by the host neither count nor print. -/

private theorem introduce_watched (i : Interpreter) (counters : Option Counters) (output : Output)
    (name : String) (add : Library → Value × Library) :
    (i.watched counters output).introduce name add =
      ((i.introduce name add).1, (i.introduce name add).2.watched counters output) := by
  have hintern : (i.watched counters output).intern name =
      ((i.intern name).1, (i.intern name).2.watched counters output) := by
    rw [Interpreter.intern]
    exact congrArg (fun answer => (answer.1, { i with machine := answer.2 }))
      (Machine.intern_watched i.machine counters output name)
  rw [introduce, introduce, hintern]
  rcases i.intern name with ⟨_ | x, j⟩ <;> rfl

private theorem defineEach_watched {α : Type}
    {define : Interpreter → α → Except EvalError Unit × Interpreter}
    (hdefine : ∀ i counters output a, define (watched i counters output) a =
      ((define i a).1, (define i a).2.watched counters output))
    (i : Interpreter) (counters : Option Counters) (output : Output) (items : List α) :
    defineEach define (i.watched counters output) items =
      (defineEach define i items).map (·.watched counters output) := by
  induction items generalizing i with
  | nil => rfl
  | cons a items ih =>
    rw [defineEach, defineEach, hdefine]
    rcases define i a with ⟨_ | _, j⟩
    · rfl
    · exact ih j

/-- Configurations that differ in profiling and in the output only build the same interpreter, with
fresh counters or without and with the output as configured. -/
theorem build_watched (config : Config) (profile : Bool) (output : Output)
    (symbols : SymbolTable) :
    build { config with profile := profile, output := output } symbols =
      (build config symbols).map (·.watched (if profile then some {} else none) output) := by
  have hbare : bare { config with profile := profile, output := output } symbols =
      (bare config symbols).watched (if profile then some {} else none) output := rfl
  rw [build, build, hbare]
  dsimp only
  split
  · rw [defineEach_watched (fun i counters output form =>
      introduce_watched i counters output form.1 (·.addForm form.1 form.2))]
    cases defineEach (fun i form => i.defineForm form.1 form.2) (bare config symbols)
      Standard.forms with
    | error e => rfl
    | ok i =>
      exact defineEach_watched (fun i counters output p =>
        introduce_watched i counters output p.1 (·.addProcedure p.1 p.2.1 p.2.2)) i _ _ _
  · rfl

/-- The states that evaluating a text passes through. -/
def sourceTrail (fuel : Nat) (i : Interpreter) (source : String) : List State :=
  i.trail fuel (Reader.ofString source) .unspecified

/-- Whether an interpreter keeps counters and where it prints makes no difference to programs. With
another configuration of both the same interpreter is built, or none for the same reason; and with
any other counters and output a text is evaluated through states that differ in nothing else, to the
same result. At every moment, and in the end, what has been printed is what the states before print,
one text after the other, and these texts are the same. -/
theorem watching_is_invisible :
    (∀ config profile output symbols,
      build { config with profile := profile, output := output } symbols =
        (build config symbols).map (·.watched (if profile then some {} else none) output)) ∧
    ∀ (i : Interpreter) counters output fuel source,
      ((i.watched counters output).sourceTrail fuel source).map State.unwatched =
        (i.sourceTrail fuel source).map State.unwatched ∧
      ((i.watched counters output).evalSource fuel source).map unwatchedEnd =
        (i.evalSource fuel source).map unwatchedEnd ∧
      ((i.watched counters output).sourceTrail fuel source).filterMap State.printed? =
        (i.sourceTrail fuel source).filterMap State.printed? ∧
      (∀ before s behind, i.sourceTrail fuel source = before ++ s :: behind →
        s.machine.output =
          i.machine.output.print (String.join (before.filterMap State.printed?))) ∧
      ∀ result j, i.evalSource fuel source = some (result, j) →
        j.machine.output = i.machine.output.print
          (String.join ((i.sourceTrail fuel source).filterMap State.printed?)) := by
  refine ⟨build_watched, ?_⟩
  intro i counters output fuel source
  have hsame : (i.watched counters output).unwatched = i.unwatched := rfl
  obtain ⟨hstates, hresult⟩ := unwatched_evalRest hsame fuel (Reader.ofString source) .unspecified
  obtain ⟨o, hfollows, hend⟩ := follows_trail fuel i (Reader.ofString source) .unspecified
  refine ⟨hstates, hresult, ?_, ?_, ?_⟩
  · have hprinted := congrArg (List.filterMap State.printed?) hstates
    simp only [List.filterMap_map, Function.comp_def, State.printed?_unwatched] at hprinted
    exact hprinted
  · intro before s behind htrail
    rw [sourceTrail] at htrail
    rw [htrail] at hfollows
    exact hfollows.output_eq
  · intro result j hj
    rw [hend result j hj]
    exact hfollows.eq_print_join

/-- A program that prints twice and then fails, with a buffer and no counters, and with counters and
nothing kept. -/
theorem failing_print_is_invisible :
    ∃ i e j j',
      build {} (.withCapacity 1 (some 127) .polynomial) = .ok i ∧
      build { profile := true, output := .silent } (.withCapacity 1 (some 127) .polynomial) =
        .ok (i.watched (some {}) .silent) ∧
      i.evalSource 60 "(display 12) (display (car (display 'a)))" = some (.error e, j) ∧
      (i.watched (some {}) .silent).evalSource 60 "(display 12) (display (car (display 'a)))" =
        some (.error e, j') ∧
      j'.unwatched = j.unwatched ∧ j.machine.output = .buffer "12a" := by
  have hrun : ((build {} (.withCapacity 1 (some 127) .polynomial)).toOption.bind fun i =>
      (i.evalSource 60 "(display 12) (display (car (display 'a)))").map fun finished =>
        (finished.1.toOption,
          (i.sourceTrail 60 "(display 12) (display (car (display 'a)))").filterMap
            State.printed?)) = some (none, ["12", "a"]) := by
    decide +kernel
  obtain ⟨i, hbuild, hrun⟩ := Option.bind_eq_some_iff.mp hrun
  obtain ⟨⟨answer, j⟩, heval, hrun⟩ := Option.map_eq_some_iff.mp hrun
  obtain ⟨hanswer, hprinted⟩ : _ ∧ _ := by simpa only [Prod.mk.injEq] using hrun
  have hbuild := build_eq_ok hbuild
  cases answer with
  | ok v => simp [Except.toOption] at hanswer
  | error e =>
    obtain ⟨hbuilds, hinvisible⟩ := watching_is_invisible
    have hown := hbuilds {} false (.buffer "") (.withCapacity 1 (some 127) .polynomial)
    have hother := hbuilds {} true .silent (.withCapacity 1 (some 127) .polynomial)
    rw [hbuild] at hown hother
    have houtput : i.machine.output = .buffer "" :=
      congrArg (·.machine.output) (Except.ok.inj hown)
    obtain ⟨-, hresult, -, -, hend⟩ :=
      hinvisible i (some {}) .silent 60 "(display 12) (display (car (display 'a)))"
    rw [heval] at hresult
    obtain ⟨⟨answer, j'⟩, heval', hj'⟩ := Option.map_eq_some_iff.mp hresult
    obtain ⟨rfl, hsame⟩ : _ ∧ _ := by simpa only [unwatchedEnd, Prod.mk.injEq] using hj'
    refine ⟨i, e, j, j', hbuild, hother, heval, heval', hsame, ?_⟩
    rw [hend _ _ heval, hprinted, houtput]
    rfl

end Interpreter
end MiniScheme
