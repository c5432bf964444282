import Mathlib.Order.Bounds.Defs
import MiniScheme.Proofs.Machine.CallStack
import MiniScheme.Proofs.Machine.Metering
import MiniScheme.Proofs.Profiling
import MiniScheme.Proofs.Session.Lines
/-! # What a profile says

A profiling interpreter is built with fresh counters and keeps them for all that it evaluates. Along
the way they are compared with the states that have been stepped from: expressions and forms are
counted as often as there were such steps, the deepest nesting is the largest depth of all states,
and the peak of the stack is the one that the call stack remembers. A step adds one state to the
past, so what holds of one step holds of whole evaluations, of one after the other, and of whatever
the host does in between that leaves stack, depth and counters alone.
-/
namespace MiniScheme

namespace Counters

/-- A count of 64 bits has not gone down, except that a full one goes on from zero. -/
def NotBelow (n n' : UInt64) : Prop := n ≤ n' ∨ n.toNat + 1 = UInt64.size ∧ n' = 0

theorem NotBelow.refl (n : UInt64) : NotBelow n n := .inl (UInt64.le_refl n)

private theorem NotBelow.succ (n : UInt64) : NotBelow n (n + 1) := by
  have hadd : (n + 1).toNat = (n.toNat + 1) % UInt64.size := UInt64.toNat_add n 1
  by_cases hfull : n.toNat + 1 = UInt64.size
  · refine .inr ⟨hfull, UInt64.toNat_inj.mp ?_⟩
    rw [hadd, hfull, Nat.mod_self]
    rfl
  · have hroom : n.toNat + 1 < UInt64.size := Nat.lt_of_le_of_ne n.toNat_lt_size hfull
    rw [Nat.mod_eq_of_lt hroom] at hadd
    refine .inl (UInt64.le_iff_toNat_le.mpr ?_)
    omega

structure NoDecrease (c c' : Counters) : Prop where
  expressions : NotBelow c.expressions c'.expressions
  builtinCalls : NotBelow c.builtinCalls c'.builtinCalls
  procedureCalls : NotBelow c.procedureCalls c'.procedureCalls
  formsEntered : NotBelow c.formsEntered c'.formsEntered
  maxDepth : c.maxDepth ≤ c'.maxDepth
  peakCallStack : c.peakCallStack ≤ c'.peakCallStack

/-- What the counters of a machine say after steps from the states `past`. -/
structure Faithful (limit : Option Nat) (past : List State) (m : Machine) (c : Counters) :
    Prop where
  counters : m.counters = some c
  peak : c.peakCallStack = m.calls.peak
  /-- A new interpreter is at depth zero. -/
  depth : IsGreatest {d | d = 0 ∨ d = m.depth ∨ ∃ s ∈ past, d = s.machine.depth} c.maxDepth
  limited : ∀ d, limit = some d → c.maxDepth ≤ d
  expressions : c.expressions = UInt64.ofNat (past.countP State.evaluates)
  forms : c.formsEntered = UInt64.ofNat (past.countP State.entersForm)
  forms_le : past.countP State.evaluates < UInt64.size → c.formsEntered ≤ c.expressions

end Counters

/-- Both machines count, and no counter of the first is above that of the second. -/
def Machine.NoDecrease (m m' : Machine) : Prop :=
  ∃ c c', m.counters = some c ∧ m'.counters = some c' ∧ c.NoDecrease c'

namespace State

variable {setting : Setting} {limit : Option Nat} {past : List State} {c : Counters} {s : State}
  {k : Nat}

def passed (setting : Setting) (n : Nat) (s : State) : List State :=
  (List.range n).map (fun k => after setting k s)

private theorem passed_succ (setting : Setting) (n : Nat) (s : State) :
    s.passed setting (n + 1) = s.passed setting n ++ [after setting n s] := by
  rw [passed, List.range_succ, List.map_append]
  rfl

private theorem passed_succ_eq_cons (setting : Setting) (n : Nat) (s : State) :
    s.passed setting (n + 1) = s :: (s.step setting).passed setting n := by
  rw [passed, List.range_succ_eq_map, List.map_cons, List.map_map]
  rfl

/-- A run looks at the states up to the first that is finished. -/
theorem trail_of_run {fuel : Nat} {result : Except EvalError Value} {m : Machine}
    (h : s.run setting fuel = some (result, m)) :
    ∃ n, after setting n s = ⟨m, .answer result, []⟩ ∧
      s.trail setting fuel = s.passed setting (n + 1) := by
  induction fuel generalizing s with
  | zero => simp [run] at h
  | succ fuel ih =>
    rw [run] at h
    rw [trail]
    cases hresult : s.result? with
    | some found =>
      rw [hresult] at h
      obtain ⟨rfl, rfl⟩ : found = result ∧ s.machine = m := by simpa using h
      exact ⟨0, result?_eq_some_iff.mp hresult, rfl⟩
    | none =>
      rw [hresult] at h
      obtain ⟨n, hn, htrail⟩ := ih h
      refine ⟨n + 1, hn, ?_⟩
      rw [passed_succ_eq_cons, ← htrail]

/-- The counters `c` of a machine after steps from the states `past`, with work `ws` waiting. Every
operator that is being evaluated is one expression ahead of the forms. -/
structure Tallied (limit : Option Nat) (past : List State) (ws : List Waiting) (c : Counters)
    (m : Machine) : Prop where
  metered : m.Metered limit c
  attained : c.maxDepth = 0 ∨ c.maxDepth = m.depth ∨ ∃ s ∈ past, c.maxDepth = s.machine.depth
  deepest : ∀ s ∈ past, s.machine.depth ≤ c.maxDepth
  expressions : c.expressions = UInt64.ofNat (past.countP evaluates)
  forms : c.formsEntered = UInt64.ofNat (past.countP entersForm)
  operators : past.countP entersForm + operators ws ≤ past.countP evaluates

private theorem Tallied.faithful {ws : List Waiting} {m : Machine} (h : Tallied limit past ws c m) :
    c.Faithful limit past m where
  counters := h.metered.counters
  peak := h.metered.peak
  depth := by
    refine ⟨h.attained, ?_⟩
    rintro d (rfl | rfl | ⟨s, hs, rfl⟩)
    · exact Nat.zero_le _
    · exact h.metered.depth
    · exact h.deepest s hs
  limited := h.metered.limited
  expressions := h.expressions
  forms := h.forms
  forms_le hwrap := by
    have hle : past.countP entersForm ≤ past.countP evaluates :=
      (Nat.le_add_right _ _).trans h.operators
    rw [h.expressions, h.forms, UInt64.le_iff_toNat_le, UInt64.toNat_ofNat_of_lt' hwrap,
      UInt64.toNat_ofNat_of_lt' (hle.trans_lt hwrap)]
    exact hle

theorem CalledFrom.exists_counters (h : s.CalledFrom limit c k) :
    ∃ c', s.machine.Metered limit c' ∧ State.operators s.waiting = k ∧
      c'.maxDepth = max c.maxDepth s.machine.depth ∧ c'.expressions = c.expressions ∧
      c'.formsEntered = c.formsEntered ∧ c.NoDecrease c' := by
  obtain ⟨called, hcalled, hmetered, hk⟩ := h
  refine ⟨_, hmetered, hk, ?_⟩
  cases hcalled with
  | no =>
    exact ⟨rfl, rfl, rfl, .refl _, .refl _, .refl _, .refl _,
      Nat.le_max_left _ _, Nat.le_refl _⟩
  | builtin =>
    exact ⟨rfl, rfl, rfl, .refl _, .succ _, .refl _, .refl _,
      Nat.le_max_left _ _, Nat.le_refl _⟩
  | procedure =>
    exact ⟨rfl, rfl, rfl, .refl _, .refl _, .succ _, .refl _,
      Nat.le_max_left _ _, Nat.le_refl _⟩

private theorem noted_eq (s : State) (c : Counters) :
    s.noted c =
      { c with
        expressions := c.expressions + UInt64.ofNat s.evaluates.toNat
        formsEntered := c.formsEntered + UInt64.ofNat s.entersForm.toNat } := by
  unfold noted
  cases hevaluates : s.evaluates with
  | true =>
    have hform : s.entersForm = false := entersForm_of_busy fun result hcontrol => by
      simp [evaluates, hcontrol] at hevaluates
    simp [hform, Counters.countExpression]
  | false => cases s.entersForm <;> simp [Counters.countForm]

private theorem notBelow_add (n : UInt64) (b : Bool) :
    Counters.NotBelow n (n + UInt64.ofNat b.toNat) := by
  cases b with
  | false => simpa using Counters.NotBelow.refl n
  | true => exact .succ n

private theorem countP_concat (event : State → Bool) (past : List State) (s : State) :
    (past ++ [s]).countP event = past.countP event + (event s).toNat := by
  rw [List.countP_append, List.countP_singleton]
  cases event s <;> rfl

theorem attained_of_max {d d' depth : Nat} (hmax : d' = max d depth)
    (h : d = 0 ∨ ∃ s ∈ past, d = s.machine.depth) :
    d' = 0 ∨ d' = depth ∨ ∃ s ∈ past, d' = s.machine.depth := by
  rcases Nat.le_total d depth with hle | hle
  · exact .inr (.inl (hmax.trans (Nat.max_eq_right hle)))
  · obtain rfl := hmax.trans (Nat.max_eq_left hle)
    exact h.imp_right .inr

theorem Tallied.start {m : Machine} (h : Tallied limit past [] c m) (hrest : m.depth = 0)
    (hs : s.CalledFrom limit c (State.operators [])) :
    ∃ c', Tallied limit past s.waiting c' s.machine ∧ c.NoDecrease c' := by
  obtain ⟨c', hmetered, hws, hdepth, hexpressions, hforms, hkept⟩ := hs.exists_counters
  refine ⟨c', ⟨hmetered, attained_of_max hdepth ?_, ?_, ?_, ?_, ?_⟩, hkept⟩
  · rcases h.attained with hzero | hhere | hbefore
    · exact .inl hzero
    · exact .inl (hhere.trans hrest)
    · exact .inr hbefore
  · intro before hbefore
    exact (h.deepest before hbefore).trans hkept.maxDepth
  · exact hexpressions.trans h.expressions
  · exact hforms.trans h.forms
  · rw [hws]
    exact h.operators

/-- A step adds one state to the past, and no counter decreases. -/
theorem Tallied.step (h : Tallied setting.maxDepth past s.waiting c s.machine) :
    ∃ c', Tallied setting.maxDepth (past ++ [s]) (s.step setting).waiting c'
      (s.step setting).machine ∧ c.NoDecrease c' := by
  obtain ⟨size, k, hcalled, hk⟩ := advances_step h.metered
  obtain ⟨c', hmetered, hws, hdepth, hexpressions, hforms, hkept⟩ := hcalled.exists_counters
  have hrise : c.maxDepth ≤ c'.maxDepth := by
    rw [noted_eq] at hkept
    exact hkept.maxDepth
  simp only [noted_eq, Counters.recordStack] at hdepth hexpressions hforms
  refine ⟨c', ⟨hmetered, attained_of_max hdepth ?_, ?_, ?_, ?_, ?_⟩, ?_⟩
  · rcases h.attained with hzero | hhere | ⟨before, hbefore, hat⟩
    · exact .inl hzero
    · exact .inr ⟨s, List.mem_append_right _ (List.mem_singleton_self s), hhere⟩
    · exact .inr ⟨before, List.mem_append_left _ hbefore, hat⟩
  · intro before hbefore
    rcases List.mem_append.mp hbefore with hbefore | hbefore
    · exact (h.deepest before hbefore).trans hrise
    · obtain rfl := List.mem_singleton.mp hbefore
      exact h.metered.depth.trans hrise
  · rw [hexpressions, countP_concat, UInt64.ofNat_add, h.expressions]
  · rw [hforms, countP_concat, UInt64.ofNat_add, h.forms]
  · rw [countP_concat, countP_concat, hws]
    have hbefore := h.operators
    omega
  · rw [noted_eq] at hkept
    refine ⟨?_, hkept.builtinCalls, hkept.procedureCalls, ?_, hrise,
      (Nat.le_max_left _ _).trans hkept.peakCallStack⟩
    · rw [hexpressions]
      exact notBelow_add _ _
    · rw [hforms]
      exact notBelow_add _ _

private theorem Tallied.after (h : Tallied setting.maxDepth past s.waiting c s.machine) (n : Nat) :
    ∃ c', Tallied setting.maxDepth (past ++ s.passed setting n) (after setting n s).waiting c'
      (after setting n s).machine := by
  induction n with
  | zero => exact ⟨c, by rwa [passed, List.range_zero, List.map_nil, List.append_nil]⟩
  | succ n ih =>
    obtain ⟨c', hn⟩ := ih
    obtain ⟨c'', hstep, -⟩ := hn.step
    rw [after_succ, passed_succ, ← List.append_assoc]
    exact ⟨c'', hstep⟩

end State

namespace Interpreter

/-- The second interpreter has call stack, depth, counters and limit of the first. -/
structure SameMeters (i j : Interpreter) : Prop where
  calls : j.machine.calls = i.machine.calls
  depth : j.machine.depth = i.machine.depth
  counters : j.machine.counters = i.machine.counters
  maxDepth : j.maxDepth = i.maxDepth

/-- The ways in which the host starts an evaluation: for whom, with which state it begins, and what
it comes to within a number of steps. -/
inductive Starts (i : Interpreter) :
    Held → State → (Nat → Option (Except EvalError Value × Interpreter)) → Prop
  | evaluate (caller : Held) (expr : Value) (env : FrameId) :
    Starts i caller (State.nest (i.setting caller) i.machine [] expr env)
      (fun fuel => i.evaluate fuel caller expr env)
  | call (procedure : Value) (args : List Value) :
    Starts i ⟨[procedure], []⟩
      (State.call (i.setting ⟨[procedure], []⟩) i.machine [] procedure args)
      (fun fuel => i.call fuel procedure args)

/-- An interpreter built for profiling, after evaluations that went through the states `past`.
Between them the host does what it likes, except that stack, depth and counters are not its own. -/
inductive Profiled (config : Config) : List State → Interpreter → Prop
  | build {symbols : SymbolTable} {i : Interpreter} (profile : config.profile = true)
    (built : build config symbols = .ok i) : Profiled config [] i
  | apart {past : List State} {i j : Interpreter} (before : Profiled config past i)
    (same : i.SameMeters j) : Profiled config past j
  | ran {past : List State} {i j : Interpreter} {caller : Held} {start : State}
    {outcome : Nat → Option (Except EvalError Value × Interpreter)} {fuel : Nat}
    {result : Except EvalError Value} (before : Profiled config past i)
    (starts : i.Starts caller start outcome) (ends : outcome fuel = some (result, j)) :
    Profiled config (past ++ start.trail (i.setting caller) fuel) j

variable {config : Config} {past : List State} {i j : Interpreter} {caller : Held} {start : State}
  {outcome : Nat → Option (Except EvalError Value × Interpreter)} {fuel : Nat}
  {result : Except EvalError Value}

private theorem Starts.calledFrom (h : i.Starts caller start outcome) {c : Counters}
    (hi : i.machine.Metered (i.setting caller).maxDepth c) :
    start.CalledFrom (i.setting caller).maxDepth c (State.operators []) := by
  cases h with
  | evaluate _ expr env => exact (State.metered_nest hi rfl expr env).calledFrom
  | call procedure args => exact State.called_call hi procedure args

private theorem Starts.run (h : i.Starts caller start outcome)
    (hend : outcome fuel = some (result, j)) :
    start.run (i.setting caller) fuel = some (result, j.machine) ∧
      j = { i with machine := j.machine } := by
  have hmap : (start.run (i.setting caller) fuel).map
      (fun finished => (finished.1, { i with machine := finished.2 })) = some (result, j) := by
    cases h with
    | evaluate _ expr env =>
      dsimp only at hend
      rwa [evaluate_eq_runFrom, runFrom_eq_map] at hend
    | call procedure args =>
      dsimp only at hend
      rwa [Interpreter.call, runFrom_eq_map] at hend
  obtain ⟨finished, hrun, hj⟩ := Option.map_eq_some_iff.mp hmap
  obtain ⟨rfl, rfl⟩ := Prod.mk.inj hj
  exact ⟨hrun, rfl⟩

theorem Starts.depth_eq (h : i.Starts caller start outcome)
    (hend : outcome fuel = some (result, j)) : j.machine.depth = i.machine.depth := by
  have hfin := State.finishes_of_run (h.run hend).1
  cases h with
  | evaluate _ expr env => exact hfin.sameStack_nest.2
  | call procedure args => exact hfin.sameStack_call.2

/-- The invariant of a profiling interpreter at rest. -/
structure Rests (config : Config) (past : List State) (i : Interpreter) : Prop where
  tallied : ∃ c, State.Tallied config.maxDepth past [] c i.machine
  depth : i.machine.depth = 0
  maxDepth : i.maxDepth = config.maxDepth

private theorem Rests.setting_maxDepth (h : i.Rests config past) (caller : Held) :
    (i.setting caller).maxDepth = config.maxDepth :=
  h.maxDepth

private theorem Rests.apart (h : i.Rests config past) (hj : i.SameMeters j) :
    j.Rests config past where
  tallied := by
    obtain ⟨c, hc⟩ := h.tallied
    have hmetered := hc.metered.congr hj.counters (congrArg CallStack.peak hj.calls) hj.depth
    exact ⟨c, hmetered, by rw [hj.depth]; exact hc.attained, hc.deepest, hc.expressions, hc.forms,
      hc.operators⟩
  depth := hj.depth.trans h.depth
  maxDepth := hj.maxDepth.trans h.maxDepth

private theorem Rests.starting (h : i.Rests config past) (hstart : i.Starts caller start outcome) :
    ∃ c c', i.machine.counters = some c ∧ c.NoDecrease c' ∧
      State.Tallied (i.setting caller).maxDepth past start.waiting c' start.machine := by
  obtain ⟨c, hc⟩ := h.tallied
  rw [← h.setting_maxDepth caller] at hc
  obtain ⟨c', hc', hkept⟩ := hc.start h.depth (hstart.calledFrom hc.metered)
  exact ⟨c, c', hc.metered.counters, hkept, hc'⟩

private theorem Rests.ran (h : i.Rests config past) (hstart : i.Starts caller start outcome)
    (hend : outcome fuel = some (result, j)) :
    j.Rests config (past ++ start.trail (i.setting caller) fuel) := by
  obtain ⟨hrun, hj⟩ := hstart.run hend
  obtain ⟨n, hn, htrail⟩ := State.trail_of_run hrun
  obtain ⟨c, c', -, -, hc'⟩ := h.starting hstart
  obtain ⟨c'', hc''⟩ := hc'.after (n + 1)
  -- The finished state stays as it is.
  rw [State.after_succ, hn] at hc''
  rw [htrail]
  refine ⟨⟨c'', ?_⟩, (hstart.depth_eq hend).trans h.depth, ?_⟩
  · rw [← h.setting_maxDepth caller]
    exact hc''
  · rw [hj]
    exact h.maxDepth

private theorem sameMeters_introduce (i : Interpreter) (name : String)
    (add : Library → Value × Library) :
    i.SameMeters (i.introduce name add).2 := by
  obtain ⟨⟨store, symbols, calls, depth, counters, output⟩, library, maxDepth, global⟩ := i
  simp only [introduce, Interpreter.intern, Machine.intern]
  rcases symbols.intern name with ⟨_ | x, u⟩ <;> exact ⟨rfl, rfl, rfl, rfl⟩

private theorem rests_build {symbols : SymbolTable} (hprofile : config.profile = true)
    (h : build config symbols = .ok i) : i.Rests config [] := by
  have hbare : (bare config symbols).Rests config [] := by
    have hcounters : (bare config symbols).machine.counters = some {} := if_pos hprofile
    have hmetered : (bare config symbols).machine.Metered config.maxDepth {} :=
      ⟨hcounters, rfl, Nat.le_refl _, fun _ _ => Nat.zero_le _⟩
    exact ⟨⟨{}, hmetered, .inl rfl, by simp, rfl, rfl, Nat.le_refl _⟩, rfl, rfl⟩
  refine of_build hbare ?_ h
  intro j name add hj
  exact hj.apart (sameMeters_introduce j name add)

private theorem Profiled.rests (h : i.Profiled config past) : i.Rests config past := by
  induction h with
  | build hprofile hbuild => exact rests_build hprofile hbuild
  | apart _ hsame ih => exact ih.apart hsame
  | ran _ hstart hend ih => exact ih.ran hstart hend

/-! Texts and sessions are read and evaluated datum by datum, so they are profiled too. -/

section Texts

variable {r after : Reader} {last : Value}

private theorem sameMeters_readValue {answer : Except ReadError (Option Value)}
    (hread : i.readValue r = (answer, after, j)) : i.SameMeters j := by
  have hreceive (outcome : Except ReadError (Option Datum)) (symbols : SymbolTable) :
      i.SameMeters (i.receive outcome symbols).2 := by
    match outcome with
    | .ok (some d) => exact ⟨rfl, rfl, rfl, rfl⟩
    | .ok none => exact ⟨rfl, rfl, rfl, rfl⟩
    | .error e => exact ⟨rfl, rfl, rfl, rfl⟩
  rw [readValue_eq] at hread
  obtain rfl := congrArg (·.2.2) hread
  exact hreceive _ _

private theorem Profiled.evalRest (h : i.Profiled config past)
    (hrun : i.evalRest fuel r last = some (result, j)) :
    j.Profiled config (past ++ i.trail fuel r last) := by
  induction fuel generalizing i r last past with
  | zero => simp [Interpreter.evalRest] at hrun
  | succ fuel ih =>
    rw [Interpreter.evalRest] at hrun
    rw [trail]
    rcases hread : i.readValue r with ⟨_ | _ | datum, after, k⟩
    all_goals
      have hk := h.apart (sameMeters_readValue hread)
      rw [hread] at hrun
      dsimp only at hrun ⊢
    · obtain ⟨-, rfl⟩ := Prod.mk.inj (Option.some.inj hrun)
      rwa [List.append_nil]
    · obtain ⟨-, rfl⟩ := Prod.mk.inj (Option.some.inj hrun)
      rwa [List.append_nil]
    · rcases heval : k.evaluate fuel ⟨[last], []⟩ datum k.global with _ | ⟨_ | v, l⟩
      all_goals rw [heval] at hrun
      · simp at hrun
      · obtain ⟨rfl, rfl⟩ := Prod.mk.inj (Option.some.inj hrun)
        rw [List.append_nil]
        exact hk.ran (.evaluate _ _ _) heval
      · rw [← List.append_assoc]
        exact ih (hk.ran (.evaluate _ _ _) heval) hrun

private theorem Profiled.evalSource {source : String} (h : i.Profiled config past)
    (hrun : i.evalSource fuel source = some (result, j)) :
    j.Profiled config (past ++ i.sourceTrail fuel source) :=
  h.evalRest hrun

private theorem Profiled.evalData {reversed out : List (Except EvalError Value)} {pending : String}
    (h : i.Profiled config past)
    (hrun : Session.evalData fuel i r reversed = some (out, pending, j)) :
    ∃ more, j.Profiled config (past ++ more) := by
  induction fuel generalizing i r reversed past with
  | zero => simp [Session.evalData] at hrun
  | succ fuel ih =>
    rw [Session.evalData] at hrun
    rcases hread : i.readValue r with ⟨e | _ | datum, after, k⟩
    all_goals
      have hk := h.apart (sameMeters_readValue hread)
      rw [hread] at hrun
      dsimp only at hrun
    · refine ⟨[], ?_⟩
      rw [List.append_nil]
      split at hrun <;>
        (obtain rfl := congrArg (·.2.2) (Option.some.inj hrun); exact hk)
    · refine ⟨[], ?_⟩
      obtain rfl := congrArg (·.2.2) (Option.some.inj hrun)
      rwa [List.append_nil]
    · rcases heval : k.evaluate fuel ⟨Session.valuesOf reversed, []⟩ datum k.global with
        _ | ⟨_ | v, l⟩
      all_goals rw [heval] at hrun
      · simp at hrun
      · obtain rfl := congrArg (·.2.2) (Option.some.inj hrun)
        exact ⟨_, hk.ran (.evaluate _ _ _) heval⟩
      · obtain ⟨more, hmore⟩ := ih (hk.ran (.evaluate _ _ _) heval) hrun
        exact ⟨_, by rwa [List.append_assoc] at hmore⟩

theorem Profiled.feed {s s' : Session} {line : String} {feed : Feed}
    (h : s.interpreter.Profiled config past) (hfeed : s.feed fuel line = some (feed, s')) :
    ∃ more, s'.interpreter.Profiled config (past ++ more) :=
  h.evalData (Session.feed_eq_some hfeed)

end Texts

/-- The counters of a profiling interpreter are faithful, at rest and after every step of every
evaluation, however evaluations before it have ended. -/
theorem counters_are_faithful (h : i.Profiled config past) :
    (∃ c : Counters, c.Faithful config.maxDepth past i.machine) ∧
    ∀ caller start outcome, i.Starts caller start outcome →
      i.machine.NoDecrease start.machine ∧
      (∀ n, let s := State.after (i.setting caller) n start
        (∃ c : Counters,
          c.Faithful config.maxDepth (past ++ start.passed (i.setting caller) n) s.machine) ∧
        s.machine.NoDecrease (s.step (i.setting caller)).machine) ∧
      ∀ fuel result j, outcome fuel = some (result, j) →
        ∃ n, State.after (i.setting caller) n start = ⟨j.machine, .answer result, []⟩ := by
  have hrests := h.rests
  refine ⟨?_, ?_⟩
  · obtain ⟨c, hc⟩ := hrests.tallied
    exact ⟨c, hc.faithful⟩
  intro caller start outcome hstart
  obtain ⟨c, c', hi, hkept, hc'⟩ := hrests.starting hstart
  refine ⟨⟨c, c', hi, hc'.metered.counters, hkept⟩, ?_, ?_⟩
  · intro n
    obtain ⟨cn, hn⟩ := hc'.after n
    obtain ⟨cn', hn', hkept'⟩ := hn.step
    refine ⟨⟨cn, ?_⟩, cn, cn', hn.metered.counters, hn'.metered.counters, hkept'⟩
    rw [← hrests.setting_maxDepth caller]
    exact hn.faithful
  · intro fuel result j hend
    obtain ⟨n, hn, -⟩ := State.trail_of_run (hstart.run hend).1
    exact ⟨n, hn⟩

/-- A form and a sum are evaluated within the limit, then an operator would be evaluated beyond it.
What the host calls next goes on from these counters. -/
theorem profile_of_stopped_evaluation :
    ∃ i j e,
      build { profile := true, maxDepth := some 3 } (.withCapacity 1 (some 127) .polynomial) =
        .ok i ∧
      i.evalSource 60 "(if #t (+ 1 2 3) 4) (+ 1 (* 2 (- 3)))" = some (.error e, j) ∧
      Counters.Faithful (some 3) (i.sourceTrail 60 "(if #t (+ 1 2 3) 4) (+ 1 (* 2 (- 3)))")
        j.machine
        { expressions := 15, builtinCalls := 1, procedureCalls := 0, formsEntered := 1,
          maxDepth := 3, peakCallStack := 3 } ∧
      j.machine.NoDecrease
        (State.call (j.setting ⟨[.nil], []⟩) j.machine [] .nil []).machine := by
  have hrun : ((build { profile := true, maxDepth := some 3 }
      (.withCapacity 1 (some 127) .polynomial)).toOption.bind fun i =>
      (i.evalSource 60 "(if #t (+ 1 2 3) 4) (+ 1 (* 2 (- 3)))").map fun finished =>
        (finished.1.toOption, finished.2.machine.counters)) =
      some (none, some ⟨15, 1, 0, 1, 3, 3⟩) := by
    decide +kernel
  obtain ⟨i, hbuild, hrun⟩ := Option.bind_eq_some_iff.mp hrun
  obtain ⟨⟨answer, j⟩, heval, hrun⟩ := Option.map_eq_some_iff.mp hrun
  obtain ⟨hanswer, hcounters⟩ : _ ∧ _ := by simpa only [Prod.mk.injEq] using hrun
  have hbuild := build_eq_ok hbuild
  have hi := Profiled.build rfl hbuild
  obtain ⟨⟨c, hc⟩, hnext⟩ := counters_are_faithful (hi.evalSource heval)
  obtain rfl := Option.some.inj (hc.counters.symm.trans hcounters)
  obtain ⟨hcall, -⟩ := hnext _ _ _ (.call .nil [])
  cases answer with
  | ok v => simp [Except.toOption] at hanswer
  | error e => exact ⟨i, j, e, hbuild, heval, hc, hcall⟩

end Interpreter
end MiniScheme
