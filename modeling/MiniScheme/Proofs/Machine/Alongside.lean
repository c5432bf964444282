import Mathlib.Data.Nat.Find
import MiniScheme.Proofs.Machine.Sequencing
/-! # Evaluation above other work

What an evaluation does depends on the work that waits for its answer in one way only: a definition
asks whether anybody else holds the closure that it is to name. So the same evaluation, run above
other work, another call stack and another depth, goes step by step alike up to the first such
question that the two runs answer differently.
-/
namespace MiniScheme

/-- What an evaluation starts above. -/
structure Footing where
  waiting : List Waiting
  values : List Value
  depth : Nat

/-- The same work, but for where on the call stack it began and for what it holds on to on behalf of
others. -/
inductive Waiting.Like : Waiting → Waiting → Prop
  | nested (expr : Value) (env : FrameId) : Like (.nested expr env) (.nested expr env)
  | operator (site : CallSite) : Like (.operator site) (.operator site)
  | operand (b : Builtin) (site : CallSite) (bottom bottom' count : Nat) (current : CellId) :
    Like (.operand b site bottom count current) (.operand b site bottom' count current)
  | argument (c : ClosureId) (site : CallSite) (rest : Value) (reversed : List Value) :
    Like (.argument c site rest reversed) (.argument c site rest reversed)
  | body (rest : List Value) (frame : FrameId) (context context' : Held) (inPlace : Bool) :
    Like (.body rest frame context inPlace) (.body rest frame context' inPlace)
  | native (resume : Except EvalError Value → Native Outcome) (context context' held : Held) :
    Like (.native resume context held) (.native resume context' held)

/-- The same is being done, but for whom. -/
inductive Control.Like : Control → Control → Prop
  | eval (expr : Value) (env : FrameId) : Like (.eval expr env) (.eval expr env)
  | native (program : Native Outcome) (context context' : Held) :
    Like (.native program context) (.native program context')
  | answer (result : Except EvalError Value) : Like (.answer result) (.answer result)

private theorem Waiting.Like.levels_eq {w w' : Waiting} (h : w.Like w') : w'.levels = w.levels := by
  cases h <;> rfl

theorem Waiting.Like.symm {w w' : Waiting} (h : w.Like w') : w'.Like w := by
  cases h <;> constructor

theorem Control.Like.symm {control control' : Control} (h : control.Like control') :
    control'.Like control := by
  cases h <;> constructor

/-- The limit allows the same evaluations above both. -/
structure Setting.Matches (f g : Footing) (setting setting' : Setting) : Prop where
  library : setting'.library = setting.library
  maxDepth : setting'.maxDepth = setting.maxDepth
  depth : setting.maxDepth = none ∨ g.depth = f.depth

namespace State

/-- The same work with the same values on the call stack stands above `f` and above `g`. -/
inductive Above (f g : Footing) : Footing → Footing → Prop
  | entry : Above f g f g
  | above {f' g' : Footing} {w w' : Waiting} (args : List Value) (rest : Above f g f' g')
    (like : w.Like w') (pushed : w.Pushed f'.values.length args)
    (pushed' : w'.Pushed g'.values.length args) :
    Above f g ⟨w :: f'.waiting, f'.values ++ args, f'.depth + w.levels⟩
      ⟨w' :: g'.waiting, g'.values ++ args, g'.depth + w'.levels⟩

/-- Two machines, each with its own work waiting, that differ by what they stand on. -/
structure Level (f g : Footing) (ws ws' : List Waiting) (m m' : Machine) : Prop where
  effects : m.SameEffects m'
  footing : Above f g ⟨ws, m.calls.values.toList, m.depth⟩ ⟨ws', m'.calls.values.toList, m'.depth⟩

/-- Two states of the same evaluation above `f` and above `g`. -/
structure Alongside (f g : Footing) (s t : State) : Prop where
  level : Level f g s.waiting t.waiting s.machine t.machine
  control : s.control.Like t.control

/-- The next step asks whether nobody else holds closure `c`, and the answer is `sole`. -/
def Asks (setting : Setting) (s : State) (c : ClosureId) (sole : Bool) : Prop :=
  ∃ program context held store resume,
    s.control = .native program context ∧
    program s.machine.store = .isSole c held store resume ∧
    sole = store.isSoleReference c
      (s.machine.roots setting.caller (context.append held) s.waiting)

/-- The same question is asked in both states and answered differently. -/
def Parts (setting setting' : Setting) (s t : State) : Prop :=
  s.machine.SameEffects t.machine ∧
    ∃ c sole, s.Asks setting c sole ∧ t.Asks setting' c (!sole)

variable {f g : Footing} {setting setting' : Setting} {ws ws' : List Waiting} {m m' : Machine}

private theorem Above.depth_eq {f' g' : Footing} (h : Above f g f' g') :
    g'.depth + f.depth = f'.depth + g.depth := by
  induction h with
  | entry => exact Nat.add_comm _ _
  | above args _ like _ _ ih =>
    dsimp only
    rw [like.levels_eq]
    omega

theorem Above.symm {f' g' : Footing} (h : Above f g f' g') : Above g f g' f' := by
  induction h with
  | entry => exact .entry
  | above args _ like pushed pushed' ih => exact .above args ih like.symm pushed' pushed

theorem Alongside.symm {s t : State} (h : Alongside f g s t) : Alongside g f t s :=
  ⟨⟨h.level.effects.symm, h.level.footing.symm⟩, h.control.symm⟩

private theorem Above.suffix {f' g' : Footing} (h : Above f g f' g') :
    ∃ above above', f'.waiting = above ++ f.waiting ∧ g'.waiting = above' ++ g.waiting ∧
      above'.length = above.length := by
  induction h with
  | entry => exact ⟨[], [], rfl, rfl, rfl⟩
  | @above f' g' w w' args _ _ _ _ ih =>
    obtain ⟨above, above', hf, hg, hlength⟩ := ih
    exact ⟨w :: above, w' :: above', by simp [hf], by simp [hg], by simp [hlength]⟩

private theorem Above.waiting_eq_iff {f' g' : Footing} (h : Above f g f' g') :
    f'.waiting = f.waiting ↔ g'.waiting = g.waiting := by
  obtain ⟨above, above', hf, hg, hlength⟩ := h.suffix
  simp only [hf, hg, List.append_left_eq_self]
  rw [← List.length_eq_zero_iff, ← List.length_eq_zero_iff, hlength]

private theorem Level.depth_eq {limit : Nat} (h : Level f g ws ws' m m')
    (hset : setting.Matches f g setting') (hlimit : setting.maxDepth = some limit) :
    m'.depth = m.depth := by
  have hdepth : g.depth = f.depth := hset.depth.resolve_left (by simp [hlimit])
  have habove : m'.depth + f.depth = m.depth + g.depth := h.footing.depth_eq
  omega

theorem Level.wait (h : Level f g ws ws' m m') {w w' : Waiting} (like : w.Like w')
    (hpushed : w.Pushed m.calls.values.toList.length [])
    (hpushed' : w'.Pushed m'.calls.values.toList.length []) (hlevels : w.levels = 0) :
    Level f g (w :: ws) (w' :: ws') m m' := by
  have habove := Above.above [] h.footing like hpushed hpushed'
  simp only [List.append_nil, like.levels_eq, hlevels, Nat.add_zero] at habove
  exact ⟨h.effects, habove⟩

private theorem Level.answer (h : Level f g ws ws' m m') (result : Except EvalError Value) :
    Alongside f g ⟨m, .answer result, ws⟩ ⟨m', .answer result, ws'⟩ :=
  ⟨h, .answer result⟩

theorem level_truncateCalls {below below' args : List Value} (heffects : m.SameEffects m')
    (habove : Above f g ⟨ws, below, m.depth⟩ ⟨ws', below', m'.depth⟩)
    (hcalls : m.calls.values.toList = below ++ args)
    (hcalls' : m'.calls.values.toList = below' ++ args) :
    Level f g ws ws' (m.truncateCalls below.length) (m'.truncateCalls below'.length) := by
  refine ⟨⟨heffects.store, heffects.symbols, heffects.output⟩, ?_⟩
  rw [Machine.toList_truncateCalls hcalls, Machine.toList_truncateCalls hcalls']
  exact habove

section Congruence

variable (hset : setting.Matches f g setting')

include hset

theorem Level.nest (h : Level f g ws ws' m m') (expr : Value) (env : FrameId) :
    Alongside f g (nest setting m ws expr env) (nest setting' m' ws' expr env) := by
  have henter : Alongside f g (nest.enterNested ws expr env m)
      (nest.enterNested ws' expr env m') := by
    have habove := Above.above [] h.footing (.nested expr env) rfl rfl
    simp only [List.append_nil] at habove
    exact ⟨⟨⟨h.effects.store, h.effects.symbols, h.effects.output⟩, habove⟩, .eval expr env⟩
  unfold State.nest
  rw [hset.maxDepth]
  cases hlimit : setting.maxDepth with
  | none => exact henter
  | some limit =>
    simp only [h.depth_eq hset hlimit]
    split
    · exact h.answer _
    · exact henter

theorem Level.applyBuiltin (h : Level f g ws ws' m m') (b : Builtin) (args : List Value)
    (context context' : Held) :
    Alongside f g (applyBuiltin setting m ws b args context)
      (applyBuiltin setting' m' ws' b args context') := by
  unfold State.applyBuiltin
  rw [hset.library]
  split
  · exact ⟨⟨⟨h.effects.store, h.effects.symbols, h.effects.output⟩, h.footing⟩, .native _ _ _⟩
  · exact h.answer _

private theorem Level.nextBody (h : Level f g ws ws' m m') (frame : FrameId)
    (context context' : Held) (inPlace : Bool) (body : List Value) :
    Alongside f g (nextBody setting m ws frame context inPlace body)
      (nextBody setting' m' ws' frame context' inPlace body) := by
  unfold State.nextBody
  split
  · exact h.answer _
  · split
    · exact ⟨h, .eval _ frame⟩
    · exact h.nest hset _ frame
  · exact (h.wait (.body _ frame context context' inPlace) rfl rfl rfl).nest hset _ frame

private theorem Level.applyClosure (h : Level f g ws ws' m m') (c : ClosureId) (args : List Value)
    (context context' : Held) (inPlace : Bool) :
    Alongside f g (applyClosure setting m ws c args context inPlace)
      (applyClosure setting' m' ws' c args context' inPlace) := by
  obtain ⟨⟨hstore, hsymbols, houtput⟩, hfooting⟩ := h
  unfold State.applyClosure Machine.bindArguments Machine.count
  simp only [hstore]
  cases m.store.bind (m.store.closure c) args with
  | mk answer store =>
    have hlevel : Level f g ws ws'
        ⟨store, m.symbols, m.calls, m.depth, m.counters.map Counters.countProcedureCall, m.output⟩
        ⟨store, m'.symbols, m'.calls, m'.depth, m'.counters.map Counters.countProcedureCall,
          m'.output⟩ :=
      ⟨⟨rfl, hsymbols, houtput⟩, hfooting⟩
    cases answer with
    | error e => exact hlevel.answer _
    | ok frame =>
      dsimp only
      split
      · exact hlevel.answer _
      · exact hlevel.nextBody hset frame context context' inPlace _

private theorem Level.nextArgument (h : Level f g ws ws' m m') (c : ClosureId) (site : CallSite)
    (reversed : List Value) (rest : Value) :
    Alongside f g (nextArgument setting m ws c site reversed rest)
      (nextArgument setting' m' ws' c site reversed rest) := by
  unfold State.nextArgument
  rw [h.effects.store]
  split
  · exact h.applyClosure hset c _ _ _ true
  · exact (h.wait (.argument c site _ reversed) rfl rfl rfl).nest hset _ site.env
  · exact h.answer _

private theorem Level.call (h : Level f g ws ws' m m') (procedure : Value) (args : List Value) :
    Alongside f g (call setting m ws procedure args) (call setting' m' ws' procedure args) := by
  unfold State.call
  rw [h.effects.store]
  split
  · exact h.applyBuiltin hset _ args _ _
  · exact h.applyClosure hset _ args _ _ false
  · exact h.answer _

private theorem Level.evalExpr (h : Level f g ws ws' m m') (expr : Value) (env : FrameId) :
    Alongside f g (evalExpr setting m ws expr env) (evalExpr setting' m' ws' expr env) := by
  unfold State.evalExpr
  simp only [h.effects.store]
  split
  · exact h.answer _
  · exact (h.wait (.operator _) rfl rfl rfl).nest hset _ env
  · exact h.answer _

theorem alongside_nextOperand {below below' args : List Value} (heffects : m.SameEffects m')
    (habove : Above f g ⟨ws, below, m.depth⟩ ⟨ws', below', m'.depth⟩)
    (hcalls : m.calls.values.toList = below ++ args)
    (hcalls' : m'.calls.values.toList = below' ++ args) (b : Builtin) (site : CallSite)
    (rest : Value) :
    Alongside f g (nextOperand setting m ws b site below.length args.length rest)
      (nextOperand setting' m' ws' b site below'.length args.length rest) := by
  have htruncated := level_truncateCalls heffects habove hcalls hcalls'
  unfold State.nextOperand
  split
  · rw [Machine.popCalls_append hcalls, Machine.popCalls_append hcalls']
    exact htruncated.applyBuiltin hset b args _ _
  · next c =>
    rw [heffects.store]
    have hwait := Above.above args habove
      (.operand b site below.length below'.length args.length c) ⟨rfl, rfl⟩ ⟨rfl, rfl⟩
    dsimp only at hwait
    rw [← hcalls, ← hcalls'] at hwait
    exact Level.nest hset ⟨heffects, hwait⟩ _ site.env
  · rw [heffects.store]
    exact htruncated.answer _

private theorem Level.applyHead (h : Level f g ws ws' m m') (site : CallSite) (head : Value) :
    Alongside f g (applyHead setting m ws site head) (applyHead setting' m' ws' site head) := by
  unfold State.applyHead
  rw [h.effects.store, hset.library]
  split
  · next b =>
    have hnext := alongside_nextOperand hset h.effects h.footing (List.append_nil _).symm
      (List.append_nil _).symm b site site.operands
    simp only [Array.length_toList] at hnext
    exact hnext
  · exact ⟨⟨⟨h.effects.store, h.effects.symbols, h.effects.output⟩, h.footing⟩, .native _ _ _⟩
  · exact h.nextArgument hset _ site [] _
  · exact h.answer _

theorem alongside_deliver {f' g' : Footing} {w w' : Waiting} {args : List Value}
    (heffects : m.SameEffects m') (rest : Above f g f' g') (like : w.Like w')
    (hpushed : w.Pushed f'.values.length args) (hpushed' : w'.Pushed g'.values.length args)
    (hcalls : m.calls.values.toList = f'.values ++ args)
    (hcalls' : m'.calls.values.toList = g'.values ++ args)
    (hdepth : m.depth = f'.depth + w.levels) (hdepth' : m'.depth = g'.depth + w'.levels)
    (result : Except EvalError Value) :
    Alongside f g (deliver setting m f'.waiting w result)
      (deliver setting' m' g'.waiting w' result) := by
  have hplain (hargs : args = []) (hlevels : w.levels = 0) :
      Level f g f'.waiting g'.waiting m m' := by
    refine ⟨heffects, ?_⟩
    simp only [hcalls, hcalls', hargs, List.append_nil, hdepth, hdepth', like.levels_eq, hlevels,
      Nat.add_zero]
    exact rest
  cases like with
  | nested expr env =>
    obtain rfl : args = [] := hpushed
    refine ⟨⟨⟨heffects.store, heffects.symbols, heffects.output⟩, ?_⟩, .answer result⟩
    simp only [deliver, hcalls, hcalls', List.append_nil, hdepth, hdepth']
    exact rest
  | native resume context context' held => exact ⟨hplain hpushed rfl, .native _ _ _⟩
  | operator site =>
    have hlevel := hplain hpushed rfl
    cases result with
    | ok head => exact hlevel.applyHead hset site head
    | error e =>
      unfold deliver
      rw [heffects.store]
      exact hlevel.answer _
  | operand b site bottom bottom' count current =>
    obtain ⟨rfl, rfl⟩ := hpushed
    obtain ⟨rfl, -⟩ := hpushed'
    have habove : Above f g ⟨f'.waiting, f'.values, m.depth⟩ ⟨g'.waiting, g'.values, m'.depth⟩ := by
      rw [show m.depth = f'.depth from hdepth, show m'.depth = g'.depth from hdepth']
      exact rest
    cases result with
    | ok v =>
      have hpush : (m.pushCall v).calls.values.toList = f'.values ++ (args ++ [v]) := by
        rw [Machine.toList_pushCall, hcalls, List.append_assoc]
      have hpush' : (m'.pushCall v).calls.values.toList = g'.values ++ (args ++ [v]) := by
        rw [Machine.toList_pushCall, hcalls', List.append_assoc]
      have heffects' : (m.pushCall v).SameEffects (m'.pushCall v) :=
        ⟨heffects.store, heffects.symbols, heffects.output⟩
      have hnext := alongside_nextOperand hset heffects' habove hpush hpush' b site
        (m.store.rest current)
      simp only [List.length_append, List.length_singleton] at hnext
      have hrest : (m'.pushCall v).store.rest current = m.store.rest current :=
        congrArg (fun store : Store => store.rest current) heffects.store
      simp only [deliver, hrest]
      exact hnext
    | error e =>
      have htruncated := level_truncateCalls heffects habove hcalls hcalls'
      exact htruncated.answer (.error e)
  | argument c site rest reversed =>
    have hlevel := hplain hpushed rfl
    cases result with
    | ok v => exact hlevel.nextArgument hset c site (v :: reversed) rest
    | error e => exact hlevel.answer _
  | body rest frame context context' inPlace =>
    have hlevel := hplain hpushed rfl
    cases result with
    | ok v => exact hlevel.nextBody hset frame context context' inPlace rest
    | error e => exact hlevel.answer _

private theorem Level.runNative (h : Level f g ws ws' m m') (program : Native Outcome)
    (context context' : Held) (hsame : ¬ Parts setting setting' ⟨m, .native program context, ws⟩
      ⟨m', .native program context', ws'⟩) :
    Alongside f g (runNative setting m ws program context)
      (runNative setting' m' ws' program context') := by
  -- Native code has changed the store, and nothing else, when it asks.
  have hlevel (store : Store) : Level f g ws ws' { m with store := store }
      { m' with store := store } :=
    ⟨⟨rfl, h.effects.symbols, h.effects.output⟩, h.footing⟩
  unfold State.runNative
  simp only [h.effects.store]
  cases hprogram : program m.store with
  | done outcome store =>
    cases outcome with
    | value v => exact (hlevel store).answer _
    | tail expr env => exact ⟨hlevel store, .eval expr env⟩
  | fail e store => exact (hlevel store).answer _
  | endless store => exact ⟨hlevel store, .native _ _ _⟩
  | eval expr env held store resume =>
    exact ((hlevel store).wait (.native resume context context' held) rfl rfl rfl).nest hset expr env
  | call procedure args held store resume =>
    exact ((hlevel store).wait (.native resume context context' held) rfl rfl rfl).call hset
      procedure args
  | intern name store resume =>
    simp only [Machine.intern, h.effects.symbols]
    cases m.symbols.intern name with
    | mk answer symbols =>
      have hinterned : Level f g ws ws' { m with store := store, symbols := symbols }
          { m' with store := store, symbols := symbols } :=
        ⟨⟨rfl, rfl, h.effects.output⟩, h.footing⟩
      cases answer with
      | ok x => exact ⟨hinterned, .native _ _ _⟩
      | error e => exact ⟨hinterned, .native _ _ _⟩
  | print text store resume =>
    refine ⟨⟨⟨rfl, h.effects.symbols, ?_⟩, h.footing⟩, .native _ _ _⟩
    exact congrArg (Output.print · text) h.effects.output
  | isSole c held store resume =>
    have hsole : store.isSoleReference c (m'.roots setting'.caller (context'.append held) ws') =
        store.isSoleReference c (m.roots setting.caller (context.append held) ws) := by
      apply Classical.byContradiction
      intro hne
      apply hsame
      refine ⟨h.effects, c, _, ⟨program, context, held, store, resume, rfl, hprogram, rfl⟩, ?_⟩
      refine ⟨program, context', held, store, resume, rfl, ?_, ?_⟩
      · rw [h.effects.store]
        exact hprogram
      · exact (Bool.eq_not.mpr hne).symm
    refine ⟨hlevel store, ?_⟩
    change Control.Like (.native (resume (store.isSoleReference c
      (m.roots setting.caller (context.append held) ws))) context) (.native (resume
        (store.isSoleReference c (m'.roots setting'.caller (context'.append held) ws'))) context')
    rw [hsole]
    exact .native _ _ _

/-- One step of both, unless they part. -/
theorem Alongside.step {s t : State} (h : Alongside f g s t) (hopen : ¬ s.AnswersTo f.waiting)
    (hsame : ¬ Parts setting setting' s t) :
    Alongside f g (s.step setting) (t.step setting') := by
  obtain ⟨m, control, ws⟩ := s
  obtain ⟨m', control', ws'⟩ := t
  obtain ⟨hlevel, hcontrol⟩ := h
  cases hcontrol with
  | eval expr env =>
    have hcounted : Level f g ws ws' (m.count Counters.countExpression)
        (m'.count Counters.countExpression) :=
      ⟨⟨hlevel.effects.store, hlevel.effects.symbols, hlevel.effects.output⟩, hlevel.footing⟩
    exact hcounted.evalExpr hset expr env
  | native program context context' => exact hlevel.runNative hset program context context' hsame
  | answer result =>
    have habove := hlevel.footing
    dsimp only at habove
    generalize hvs : m.calls.values.toList = vs at habove
    generalize hvs' : m'.calls.values.toList = vs' at habove
    generalize hd : m.depth = d at habove
    generalize hd' : m'.depth = d' at habove
    cases habove with
    | entry => exact absurd ⟨result, rfl, rfl⟩ hopen
    | above args rest like pushed pushed' =>
      exact alongside_deliver hset hlevel.effects rest like pushed pushed' hvs hvs' hd hd' result

end Congruence

private theorem Alongside.answersTo_iff {s t : State} (h : Alongside f g s t) :
    s.AnswersTo f.waiting ↔ t.AnswersTo g.waiting := by
  obtain ⟨m, control, ws⟩ := s
  obtain ⟨m', control', ws'⟩ := t
  have hwaiting : ws = f.waiting ↔ ws' = g.waiting := h.level.footing.waiting_eq_iff
  have hcontrol : control.Like control' := h.control
  cases hcontrol <;> simp [AnswersTo, hwaiting]

/-- For `k` steps two states of the same evaluation stay so, and then they part. -/
def PartAfter (setting setting' : Setting) (k : Nat) (s t : State) : Prop :=
  ∃ f g, (∀ j ≤ k, Alongside f g (after setting j s) (after setting' j t)) ∧
    Parts setting setting' (after setting k s) (after setting' k t)

/-- Two evaluations, the one for `base` and the other for `base'`, come to the same: both finish with
one result and the same effects, or neither finishes, or from some moment on both are within the same
evaluation, step by step, until they answer differently whether somebody else holds a closure that is
to be named. -/
inductive Concur (setting setting' : Setting) (base base' : List Waiting) (s t : State) : Prop
  | finish {result : Except EvalError Value} {m m' : Machine}
    (left : Finishes setting base s result m) (right : Finishes setting' base' t result m')
    (effects : m.SameEffects m')
  | endless (left : ∀ n, ¬ (after setting n s).AnswersTo base)
    (right : ∀ n, ¬ (after setting' n t).AnswersTo base')
  | part (n n' k : Nat) (left : ∀ j ≤ n + k, ¬ (after setting j s).AnswersTo base)
    (right : ∀ j ≤ n' + k, ¬ (after setting' j t).AnswersTo base')
    (parts : PartAfter setting setting' k (after setting n s) (after setting' n' t))

/-- States of the same evaluation stay so until it is finished or they part. -/
theorem Alongside.after {s t : State} (hset : setting.Matches f g setting')
    (h : Alongside f g s t) (n : Nat) (hopen : ∀ k < n, ¬ (after setting k s).AnswersTo f.waiting)
    (hsame : ∀ k < n, ¬ Parts setting setting' (State.after setting k s)
      (State.after setting' k t)) :
    Alongside f g (State.after setting n s) (State.after setting' n t) := by
  induction n generalizing s t with
  | zero => exact h
  | succ n ih =>
    have hstep := h.step hset (hopen 0 (Nat.succ_pos n)) (hsame 0 (Nat.succ_pos n))
    exact ih hstep (fun k hk => hopen (k + 1) (by omega)) (fun k hk => hsame (k + 1) (by omega))

variable {s t : State} {base base' : List Waiting}

theorem Parts.symm (h : Parts setting setting' s t) : Parts setting' setting t s := by
  obtain ⟨heffects, c, sole, hs, ht⟩ := h
  refine ⟨heffects.symm, c, !sole, ht, ?_⟩
  rwa [Bool.not_not]

theorem PartAfter.symm {k : Nat} (h : PartAfter setting setting' k s t) :
    PartAfter setting' setting k t s := by
  obtain ⟨f, g, htogether, hparts⟩ := h
  exact ⟨g, f, fun j hj => (htogether j hj).symm, hparts.symm⟩

theorem Concur.symm (h : Concur setting setting' base base' s t) :
    Concur setting' setting base' base t s := by
  cases h with
  | finish left right effects => exact .finish right left effects.symm
  | endless left right => exact .endless right left
  | part n n' k left right parts => exact .part n' n k right left parts.symm

theorem Concur.of_proceeds {s' t' : State} (hs : Proceeds setting base s s')
    (ht : Proceeds setting' base' t t') (h : Concur setting setting' base base' s' t') :
    Concur setting setting' base base' s t := by
  have hlater {setting : Setting} {base : List Waiting} {s : State} {i n : Nat}
      (hopen : ∀ k < i, ¬ (after setting k s).AnswersTo base)
      (hrest : ∀ k ≤ n, ¬ (after setting k (after setting i s)).AnswersTo base) :
      ∀ k ≤ i + n, ¬ (after setting k s).AnswersTo base := by
    intro k hk
    rcases Nat.lt_or_ge k i with hlt | hge
    · exact hopen k hlt
    · obtain ⟨j, rfl⟩ := Nat.exists_eq_add_of_le hge
      rw [after_add]
      exact hrest j (by omega)
  cases h with
  | finish left right effects => exact .finish (hs.finishes left) (ht.finishes right) effects
  | endless left right =>
    obtain ⟨i, rfl, hopen⟩ := hs
    obtain ⟨j, rfl, hopen'⟩ := ht
    refine .endless (fun n => ?_) (fun n => ?_)
    · exact hlater hopen (fun k _ => left k) n (Nat.le_add_left n i)
    · exact hlater hopen' (fun k _ => right k) n (Nat.le_add_left n j)
  | part n n' k left right parts =>
    obtain ⟨i, rfl, hopen⟩ := hs
    obtain ⟨j, rfl, hopen'⟩ := ht
    refine .part (i + n) (j + n') k ?_ ?_ ?_
    · rw [Nat.add_assoc]
      exact hlater hopen left
    · rw [Nat.add_assoc]
      exact hlater hopen' right
    · rw [after_add, after_add]
      exact parts

private theorem Alongside.concur_of_answersTo (h : Alongside f g s t)
    (hanswers : s.AnswersTo f.waiting) :
    Concur setting setting' f.waiting g.waiting s t := by
  have hanswers' := h.answersTo_iff.mp hanswers
  obtain ⟨m, control, ws⟩ := s
  obtain ⟨m', control', ws'⟩ := t
  obtain ⟨result, rfl, rfl⟩ := hanswers
  obtain ⟨result', rfl, rfl⟩ := hanswers'
  obtain rfl : result' = result := by
    cases h.control
    rfl
  exact .finish (.now m _) (.now m' _) h.level.effects

theorem Alongside.concur (hset : setting.Matches f g setting')
    (h : Alongside f g s t) : Concur setting setting' f.waiting g.waiting s t := by
  classical
  by_cases hend : ∃ n, (State.after setting n s).AnswersTo f.waiting ∨
      Parts setting setting' (State.after setting n s) (State.after setting' n t)
  · -- The first moment at which the left run has finished or the two part.
    obtain ⟨n, hn, hbefore⟩ : ∃ n, ((State.after setting n s).AnswersTo f.waiting ∨
        Parts setting setting' (State.after setting n s) (State.after setting' n t)) ∧
        ∀ k < n, ¬ (State.after setting k s).AnswersTo f.waiting ∧
          ¬ Parts setting setting' (State.after setting k s) (State.after setting' k t) :=
      ⟨Nat.find hend, Nat.find_spec hend, fun k hk => not_or.mp (Nat.find_min hend hk)⟩
    have hstill (k : Nat) (hk : k ≤ n) :
        Alongside f g (State.after setting k s) (State.after setting' k t) :=
      h.after hset k (fun j hj => (hbefore j (by omega)).1) (fun j hj => (hbefore j (by omega)).2)
    have hopen' (k : Nat) (hk : k < n) : ¬ (State.after setting' k t).AnswersTo g.waiting :=
      fun hk' => (hbefore k hk).1 ((hstill k (Nat.le_of_lt hk)).answersTo_iff.mpr hk')
    have hnow := hstill n (Nat.le_refl n)
    by_cases hanswers : (State.after setting n s).AnswersTo f.waiting
    · exact .of_proceeds ⟨n, rfl, fun k hk => (hbefore k hk).1⟩ ⟨n, rfl, hopen'⟩
        (hnow.concur_of_answersTo hanswers)
    · have hanswers' : ¬ (State.after setting' n t).AnswersTo g.waiting :=
        fun hn' => hanswers (hnow.answersTo_iff.mpr hn')
      refine .part 0 0 n (fun k hk => ?_) (fun k hk => ?_)
        ⟨f, g, hstill, hn.resolve_left hanswers⟩
      · rcases Nat.lt_or_eq_of_le (Nat.zero_add n ▸ hk) with hlt | rfl
        · exact (hbefore k hlt).1
        · exact hanswers
      · rcases Nat.lt_or_eq_of_le (Nat.zero_add n ▸ hk) with hlt | rfl
        · exact hopen' k hlt
        · exact hanswers'
  · have hnever (n : Nat) := not_or.mp (not_exists.mp hend n)
    refine .endless (fun n => (hnever n).1) (fun n hn => ?_)
    have hstill := h.after hset n (fun k _ => (hnever k).1) (fun k _ => (hnever k).2)
    exact (hnever n).1 (hstill.answersTo_iff.mpr hn)

/-- Evaluations above further work, and then what that work does with the answer. -/
theorem Concur.rebase (above above' : List Waiting) {values values' : List Value}
    {depth depth' : Nat} (h : Concur setting setting' (above ++ base) (above' ++ base') s t)
    (hs : Within (above ++ base) values depth s) (ht : Within (above' ++ base') values' depth' t)
    (hthen : ∀ result m m', m.SameEffects m' →
      Finishes setting (above ++ base) s result m → Finishes setting' (above' ++ base') t result m' →
      Concur setting setting' base base' ⟨m, .answer result, above ++ base⟩
        ⟨m', .answer result, above' ++ base'⟩) :
    Concur setting setting' base base' s t := by
  cases h with
  | finish left right effects =>
    exact .of_proceeds (left.proceeds.above above hs) (right.proceeds.above above' ht)
      (hthen _ _ _ effects left right)
  | endless left right =>
    refine .endless (fun n => ?_) (fun n => ?_)
    · exact not_answersTo_of_above hs fun k _ => left k
    · exact not_answersTo_of_above ht fun k _ => right k
  | part n n' k left right parts =>
    refine .part n n' k (fun i hi => ?_) (fun i hi => ?_) parts
    · exact not_answersTo_of_above hs fun j hj => left j (by omega)
    · exact not_answersTo_of_above ht fun j hj => right j (by omega)

end State
end MiniScheme
