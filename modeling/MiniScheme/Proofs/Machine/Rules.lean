import MiniScheme.Proofs.Machine.Run
import MiniScheme.Proofs.Native.Standard
/-! # Rules along a run

Where native code keeps to rules, so does the machine that runs it. The invariant says it of what is
being done and of all the work that waits above the point where an evaluation was started; one lemma
for each rule of the machine shows that a step keeps it.
-/
namespace MiniScheme

namespace Waiting

/-- Waiting work goes on by the rules, and hands on an error. -/
def Obeys (R : Rules) (free : Native Outcome → Prop) : Waiting → Prop
  | nested _ _ => True
  | operator site => R.env site.env
  | operand _ site _ _ _ => R.env site.env
  | argument _ site _ _ => R.env site.env
  | body _ frame _ _ => R.env frame
  | native resume _ _ =>
    (∀ e store, resume (.error e) store = .fail e store) ∧
      ∀ v, free (resume (.ok v)) ∨ (resume (.ok v)).Obeys R free R.outcome

end Waiting

def Control.Obeys (R : Rules) (free : Native Outcome → Prop) : Control → Prop
  | eval _ env => R.env env
  | native program _ => free program ∨ program.Obeys R free R.outcome
  | answer _ => True

/-- Native code that stops at once, with a value or an error. -/
def Interaction.Stops (R : Rules) : Interaction Outcome → Prop
  | done (.value _) store => R.good store
  | fail _ store => R.good store
  | _ => False

namespace State

/-- What waits above `base` keeps to the rules. -/
def Pending (R : Rules) (free : Native Outcome → Prop) (base ws : List Waiting) : Prop :=
  ∃ above, ws = above ++ base ∧ ∀ w ∈ above, w.Obeys R free

structure Obeys (R : Rules) (free : Native Outcome → Prop) (base : List Waiting) (s : State) :
    Prop where
  store : R.good s.machine.store
  control : s.control.Obeys R free
  waiting : Pending R free base s.waiting

/-- A state that keeps to the rules, reached by an allowed change of a machine's store. -/
def Reaches (R : Rules) (free : Native Outcome → Prop) (base : List Waiting) (m : Machine)
    (s : State) : Prop :=
  R.change m.store s.machine.store ∧ s.Obeys R free base

variable {R : Rules} {free : Native Outcome → Prop} {base ws : List Waiting} {m : Machine}
  {setting : Setting} {env : FrameId}

theorem Pending.entry (R : Rules) (free : Native Outcome → Prop) (base : List Waiting) :
    Pending R free base base :=
  ⟨[], rfl, by simp⟩

private theorem Pending.wait {w : Waiting} (hws : Pending R free base ws) (hw : w.Obeys R free) :
    Pending R free base (w :: ws) := by
  obtain ⟨above, rfl, habove⟩ := hws
  refine ⟨w :: above, rfl, ?_⟩
  simpa [hw] using habove

private theorem Pending.next {w : Waiting} (hws : Pending R free base (w :: ws))
    (hne : w :: ws ≠ base) :
    w.Obeys R free ∧ Pending R free base ws := by
  obtain ⟨above, heq, habove⟩ := hws
  cases above with
  | nil => exact absurd heq hne
  | cons w' above =>
    obtain ⟨rfl, rfl⟩ := by simpa using heq
    exact ⟨habove w (by simp), above, rfl, fun w hw => habove w (by simp [hw])⟩

variable (h : R.Lawful)

include h

private theorem change_bind {s : Store} (hgood : R.good s) (c : Closure) (args : List Value) :
    R.change s (s.bind c args).2 ∧ ∀ frame, (s.bind c args).1 = .ok frame → R.env frame := by
  obtain ⟨hchild, henv⟩ := h.child c.env hgood
  have hfresh := h.good_of_change hgood hchild
  unfold Store.bind
  split
  · unfold Store.extend
    split
    · dsimp only
      split
      · refine ⟨h.trans hchild (Forms.change_defineAll h henv hfresh _), ?_⟩
        rintro frame ⟨⟩
        exact henv
      · next names rest hformals =>
        have hlist : R.change s ((s.child c.env).2.list (args.drop names.length)).2 :=
          h.trans hchild (h.of_frames_eq (Store.frames_consAll _ _ _))
        have hall := h.trans hlist
          (Forms.change_defineAll h henv (h.good_of_change hgood hlist) (names.zip args))
        refine ⟨h.trans hall (h.define _ _ (h.good_of_change hgood hall) henv), ?_⟩
        rintro frame ⟨⟩
        exact henv
    · exact ⟨h.refl s, by simp⟩
  · exact ⟨h.refl s, by simp⟩

private theorem reaches_answer (hgood : R.good m.store) (hws : Pending R free base ws)
    (result : Except EvalError Value) : Reaches R free base m ⟨m, .answer result, ws⟩ :=
  ⟨h.refl _, hgood, trivial, hws⟩

theorem reaches_nest (hgood : R.good m.store) (hws : Pending R free base ws) (expr : Value)
    (henv : R.env env) : Reaches R free base m (nest setting m ws expr env) := by
  have henter : Reaches R free base m (nest.enterNested ws expr env m) :=
    ⟨h.refl _, hgood, henv, hws.wait trivial⟩
  unfold nest
  split
  · split
    · exact reaches_answer h hgood hws _
    · exact henter
  · exact henter

private theorem reaches_applyBuiltin (hlib : setting.library.Obeys R free) (hgood : R.good m.store)
    (hws : Pending R free base ws) (b : Builtin) (args : List Value) (context : Held) :
    Reaches R free base m (applyBuiltin setting m ws b args context) := by
  unfold applyBuiltin
  split
  · refine ⟨h.refl _, hgood, .inr ?_, hws⟩
    exact Native.obeys_bind h (hlib.procedure b args) fun v _ => Native.obeys_pure h trivial
  · exact reaches_answer h hgood hws _

private theorem reaches_nextOperand (hlib : setting.library.Obeys R free) (hgood : R.good m.store)
    (hws : Pending R free base ws) (b : Builtin) {site : CallSite} (hsite : R.env site.env)
    (bottom count : Nat) (rest : Value) :
    Reaches R free base m (nextOperand setting m ws b site bottom count rest) := by
  unfold nextOperand
  split
  · split <;> rename_i m' hpop <;>
      have hstore : m'.store = m.store := (congrArg (fun p => p.2.store) hpop).symm <;>
      unfold Reaches <;> rw [← hstore] at hgood ⊢
    · exact reaches_applyBuiltin h hlib hgood hws b _ _
    · exact reaches_answer h hgood hws _
  · apply reaches_nest h hgood _ _ hsite
    exact hws.wait hsite
  · exact ⟨h.refl _, hgood, trivial, hws⟩

private theorem reaches_nextBody (hgood : R.good m.store) (hws : Pending R free base ws)
    (henv : R.env env) (context : Held) (inPlace : Bool) (body : List Value) :
    Reaches R free base m (nextBody setting m ws env context inPlace body) := by
  unfold nextBody
  split
  · exact reaches_answer h hgood hws _
  · split
    · exact ⟨h.refl _, hgood, henv, hws⟩
    · exact reaches_nest h hgood hws _ henv
  · apply reaches_nest h hgood _ _ henv
    exact hws.wait henv

theorem reaches_applyClosure (hgood : R.good m.store) (hws : Pending R free base ws)
    (c : ClosureId) (args : List Value) (context : Held) (inPlace : Bool) :
    Reaches R free base m (applyClosure setting m ws c args context inPlace) := by
  obtain ⟨hchange, henv⟩ := change_bind h hgood (m.store.closure c) args
  have hgood' := h.good_of_change hgood hchange
  unfold applyClosure
  dsimp only
  split <;> rename_i m' hbind <;>
    have hstore := congrArg (fun p => p.2.store) hbind <;>
    have hframe := congrArg Prod.fst hbind <;>
    change (m.store.bind (m.store.closure c) args).2 = m'.store at hstore <;>
    rw [hstore] at hchange hgood'
  · exact ⟨hchange, hgood', trivial, hws⟩
  · split
    · exact ⟨hchange, hgood', trivial, hws⟩
    · have hbody : Reaches R free base m'
          (nextBody setting m' ws _ context inPlace (m.store.closure c).body) :=
        reaches_nextBody h hgood' hws (henv _ hframe) context inPlace _
      exact ⟨h.trans hchange hbody.1, hbody.2⟩

private theorem reaches_nextArgument (hgood : R.good m.store) (hws : Pending R free base ws)
    (c : ClosureId) {site : CallSite} (hsite : R.env site.env) (reversed : List Value)
    (rest : Value) : Reaches R free base m (nextArgument setting m ws c site reversed rest) := by
  unfold nextArgument
  split
  · exact reaches_applyClosure h hgood hws c _ _ _
  · apply reaches_nest h hgood _ _ hsite
    exact hws.wait hsite
  · exact reaches_answer h hgood hws _

private theorem reaches_call (hlib : setting.library.Obeys R free) (hgood : R.good m.store)
    (hws : Pending R free base ws) (procedure : Value) (args : List Value) :
    Reaches R free base m (call setting m ws procedure args) := by
  unfold call
  split
  · exact reaches_applyBuiltin h hlib hgood hws _ args _
  · exact reaches_applyClosure h hgood hws _ args _ _
  · exact reaches_answer h hgood hws _

private theorem reaches_evalExpr (hgood : R.good m.store) (hws : Pending R free base ws)
    (expr : Value) (henv : R.env env) : Reaches R free base m (evalExpr setting m ws expr env) := by
  unfold evalExpr
  split
  · exact reaches_answer h hgood hws _
  · apply reaches_nest h hgood _ _ henv
    exact hws.wait henv
  · exact reaches_answer h hgood hws _

private theorem reaches_applyHead (hlib : setting.library.Obeys R free) (hgood : R.good m.store)
    (hws : Pending R free base ws) {site : CallSite} (hsite : R.env site.env) (head : Value) :
    Reaches R free base m (applyHead setting m ws site head) := by
  unfold applyHead
  split
  · exact reaches_nextOperand h hlib hgood hws _ hsite _ _ _
  · exact ⟨h.refl _, hgood, .inr (hlib.form _ _ hsite), hws⟩
  · exact reaches_nextArgument h hgood hws _ hsite _ _
  · exact reaches_answer h hgood hws _

private theorem reaches_deliver (hlib : setting.library.Obeys R free) (hgood : R.good m.store)
    (hws : Pending R free base ws) {w : Waiting} (hw : w.Obeys R free)
    (result : Except EvalError Value) :
    Reaches R free base m (deliver setting m ws w result) := by
  cases w with
  | nested expr env => exact ⟨h.refl _, hgood, trivial, hws⟩
  | native resume context held =>
    obtain ⟨herror, hok⟩ := hw
    refine ⟨h.refl _, hgood, ?_, hws⟩
    cases result with
    | ok v => exact hok v
    | error e =>
      have hfail : resume (.error e) = Native.fail e := funext (herror e)
      exact .inr (hfail ▸ Native.obeys_fail h e)
  | operator site =>
    cases result with
    | ok head => exact reaches_applyHead h hlib hgood hws hw head
    | error e => exact reaches_answer h hgood hws _
  | operand b site bottom count current =>
    cases result with
    | ok v => exact reaches_nextOperand (m := m.pushCall v) h hlib hgood hws b hw _ _ _
    | error e => exact reaches_answer (m := m.truncateCalls bottom) h hgood hws _
  | argument c site rest reversed =>
    cases result with
    | ok v => exact reaches_nextArgument h hgood hws c hw _ _
    | error e => exact reaches_answer h hgood hws _
  | body rest frame context inPlace =>
    cases result with
    | ok v => exact reaches_nextBody h hgood hws hw _ _ _
    | error e => exact reaches_answer h hgood hws _

private theorem reaches_runNative (hlib : setting.library.Obeys R free) (hgood : R.good m.store)
    (hws : Pending R free base ws) {program : Native Outcome}
    (hprogram : program.Obeys R free R.outcome) (context : Held) :
    Reaches R free base m (runNative setting m ws program context) := by
  obtain ⟨store, symbols, calls, depth, counters, output⟩ := m
  have hp := hprogram store hgood
  -- A question changes the store first; what follows is that of the machine with the new store.
  have hthen {store' : Store} {s : State} (hchange : R.change store store')
      (hs : R.good store' →
        Reaches R free base ⟨store', symbols, calls, depth, counters, output⟩ s) :
      Reaches R free base ⟨store, symbols, calls, depth, counters, output⟩ s := by
    have hreach := hs (h.good_of_change hgood hchange)
    exact ⟨h.trans hchange hreach.1, hreach.2⟩
  simp only [runNative]
  split <;> rename_i hrun <;> rw [hrun] at hp
  · exact hthen hp.1 fun hgood => reaches_answer h hgood hws _
  · exact hthen hp.1 fun hgood => ⟨h.refl _, hgood, hp.2, hws⟩
  · exact hthen hp fun hgood => reaches_answer h hgood hws _
  · exact hthen hp fun hgood => ⟨h.refl _, hgood, .inr (Native.obeys_endless h), hws⟩
  · obtain ⟨hchange, henv, hresume⟩ := hp
    refine hthen hchange fun hgood => ?_
    apply reaches_nest h hgood _ _ henv
    exact hws.wait hresume
  · obtain ⟨hchange, herror, hok⟩ := hp
    refine hthen hchange fun hgood => ?_
    apply reaches_call h hlib hgood
    exact hws.wait ⟨herror, fun v => .inr (hok v)⟩
  · next name store' resume =>
    refine hthen hp.1 fun hgood => ?_
    have hstore : ((⟨store', symbols, calls, depth, counters, output⟩ : Machine).intern
        name).2.store = store' := by
      unfold Machine.intern
      dsimp only
      split <;> rfl
    refine ⟨?_, ?_, .inr (hp.2 _), hws⟩
    · change R.change store' (Machine.store _)
      rw [hstore]
      exact h.refl store'
    · rw [hstore]
      exact hgood
  · exact hthen hp.1 fun hgood => ⟨h.refl _, hgood, .inr hp.2, hws⟩
  · exact hthen hp.1 fun hgood => ⟨h.refl _, hgood, .inr (hp.2 _), hws⟩

omit h in
private theorem obeys_stop (hws : Pending R free base ws) {program : Native Outcome}
    (hstop : (program m.store).Stops R) (context : Held) :
    (runNative setting m ws program context).Obeys R free base := by
  obtain ⟨store, symbols, calls, depth, counters, output⟩ := m
  simp only [runNative]
  split <;> rename_i hrun <;> simp only [hrun, Interaction.Stops] at hstop
  · exact ⟨hstop, trivial, hws⟩
  · exact ⟨hstop, trivial, hws⟩

/-- One step keeps to the rules, and leaves changes that are not allowed to code of the kind
`free`. -/
theorem Obeys.step (hlib : setting.library.Obeys R free)
    (hfree : ∀ p, free p → ∀ store, R.good store → (p store).Stops R) {s : State}
    (hs : s.Obeys R free base) (hopen : s.AnswersTo base → base = []) :
    (s.step setting).Obeys R free base ∧
      (R.change s.machine.store (s.step setting).machine.store ∨
        ∃ p context, s.control = .native p context ∧ free p) := by
  have of_reaches {s' : State} (hreach : Reaches R free base s.machine s') :
      s'.Obeys R free base ∧ (R.change s.machine.store s'.machine.store ∨
        ∃ p context, s.control = .native p context ∧ free p) := ⟨hreach.2, .inl hreach.1⟩
  obtain ⟨m, control, ws⟩ := s
  obtain ⟨hgood, hcontrol, hws⟩ := hs
  cases control with
  | eval expr env =>
    exact of_reaches (reaches_evalExpr (m := m.count _) h hgood hws expr hcontrol)
  | native program context =>
    rcases hcontrol with hp | hp
    · refine ⟨obeys_stop hws (hfree program hp m.store hgood) context, .inr ?_⟩
      exact ⟨program, context, rfl, hp⟩
    · exact of_reaches (reaches_runNative h hlib hgood hws hp context)
  | answer result =>
    cases ws with
    | nil => exact of_reaches (reaches_answer h hgood hws result)
    | cons w ws =>
      have hne : w :: ws ≠ base := by
        intro heq
        have hnil := hopen ⟨result, rfl, heq⟩
        simp [hnil] at heq
      obtain ⟨hw, hws⟩ := hws.next hne
      exact of_reaches (reaches_deliver h hlib hgood hws hw result)

theorem Obeys.after (hlib : setting.library.Obeys R free)
    (hfree : ∀ p, free p → ∀ store, R.good store → (p store).Stops R) {s : State}
    (hs : s.Obeys R free base) (n : Nat)
    (hopen : ∀ k < n, (after setting k s).AnswersTo base → base = []) :
    (after setting n s).Obeys R free base := by
  induction n generalizing s with
  | zero => exact hs
  | succ n ih =>
    have hstep := (Obeys.step h hlib hfree hs (hopen 0 (by omega))).1
    exact ih hstep fun k hk => hopen (k + 1) (by omega)

/-- Where no code is free, the whole way to a state is an allowed change. -/
theorem Obeys.reaches_after (hlib : setting.library.Obeys R Native.never) {s : State}
    (hs : s.Obeys R Native.never base) (n : Nat)
    (hopen : ∀ k < n, (State.after setting k s).AnswersTo base → base = []) :
    Reaches R Native.never base s.machine (State.after setting n s) := by
  induction n generalizing s with
  | zero => exact ⟨h.refl _, hs⟩
  | succ n ih =>
    obtain ⟨hstep, hchange⟩ := Obeys.step h hlib (fun _ => False.elim) hs (hopen 0 (by omega))
    have hrest := ih hstep fun k hk => hopen (k + 1) (by omega)
    rcases hchange with hchange | ⟨p, context, -, hp⟩
    · exact ⟨h.trans hchange hrest.1, hrest.2⟩
    · exact hp.elim

end State
end MiniScheme
