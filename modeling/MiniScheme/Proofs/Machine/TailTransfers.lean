import Mathlib
import MiniScheme.Proofs.Machine.Sequencing
import MiniScheme.Proofs.Native.TailPosition
/-! # Tail transfers

An expression in tail position takes the place of the form or call that it ends: it is evaluated with
nothing new waiting. While a form, an application or the body of a closure is being evaluated, each
moment is one of four: its own code runs, an expression before its end is being evaluated one level
deeper, what is next has taken its place (the last expression, or the call), or it has answered.

What waits above the point where an evaluation started accounts for call stack and depth. So each
transfer of a chain finds them as the first one did, and the depth at any moment is that of the start
and the nested evaluations under way since the latest transfer.
-/
namespace MiniScheme

namespace State

variable {setting : Setting} {ws : List Waiting} {seen : Store → Prop}
  {inner last alone : Value → Prop} {next : Machine → State → Prop} {m m' : Machine} {s s' : State}
  {n : Nat} {result : Except EvalError Value}

/-- What is going on `n` steps after `s`, in work for `ws` that started on the machine `m`. -/
inductive Course (setting : Setting) (ws : List Waiting) (inner : Value → Prop)
    (next : Machine → State → Prop) (alone : Value → Prop) (m : Machine) (s : State) (n : Nat) : Prop
  /-- Code of its own is running. -/
  | own {m' : Machine} {program : Native Outcome} {context : Held} (same : m.SameStack m')
    (now : after setting n s = ⟨m', .native program context, ws⟩)
  /-- An expression before the end has been given to a nested evaluation, which has not handed on
  its answer yet. -/
  | inside {k : Nat} {m' : Machine} {w : Waiting} {expr : Value} {env : FrameId} (past : k ≤ n)
    (position : inner expr) (same : m.SameStack m')
    (start : after setting k s = nest setting m' (w :: ws) expr env)
    (unanswered : ∀ j, k ≤ j → j < n → ¬ (after setting j s).AnswersTo (w :: ws))
  /-- What is next has taken the place of the work. -/
  | replaced {k : Nat} {m' : Machine} (past : k ≤ n) (same : m.SameStack m')
    (start : next m' (after setting k s))
  /-- The work has failed, or had a value without what is next. -/
  | answered {k : Nat} {m' : Machine} {result : Except EvalError Value} (past : k ≤ n)
    (value : ∀ v, result = .ok v → alone v) (same : m.SameStack m')
    (start : after setting k s = ⟨m', .answer result, ws⟩)

theorem Course.before {k : Nat} (hs : after setting k s = s') (hsame : m.SameStack m')
    (h : Course setting ws inner next alone m' s' n) :
    Course setting ws inner next alone m s (k + n) := by
  have hafter (j : Nat) : after setting (k + j) s = after setting j s' := by
    rw [after_add, hs]
  cases h with
  | own same now => exact .own (hsame.trans same) (by rw [hafter, now])
  | @inside j _ w _ _ past position same start unanswered =>
    refine .inside (k := k + j) (by omega) position (hsame.trans same) (by rw [hafter, start]) ?_
    intro i hle hlt
    obtain ⟨i, rfl⟩ := Nat.exists_eq_add_of_le (show k ≤ i by omega)
    rw [hafter]
    exact unanswered i (by omega) (by omega)
  | @replaced j _ past same start =>
    exact .replaced (k := k + j) (by omega) (hsame.trans same) (by rwa [hafter])
  | @answered j _ _ past value same start =>
    exact .answered (k := k + j) (by omega) value (hsame.trans same) (by rw [hafter, start])

private theorem Course.of_sameStack (h : Course setting ws inner next alone m' s n)
    (hsame : m.SameStack m') : Course setting ws inner next alone m s n := by
  have hbefore := h.before (k := 0) rfl hsame
  rwa [Nat.zero_add] at hbefore

theorem Course.mono {inner' alone' : Value → Prop} {next' : Machine → State → Prop}
    (h : Course setting ws inner next alone m s n) (hinner : ∀ e, inner e → inner' e)
    (hnext : ∀ m s, next m s → next' m s) (halone : ∀ v, alone v → alone' v) :
    Course setting ws inner' next' alone' m s n := by
  cases h with
  | own same now => exact .own same now
  | inside past position same start unanswered =>
    exact .inside past (hinner _ position) same start unanswered
  | replaced past same start => exact .replaced past same (hnext _ _ start)
  | answered past value same start =>
    exact .answered past (fun v hv => halone v (value v hv)) same start

theorem course_nest {w : Waiting} {expr : Value} {env : FrameId} (hexpr : inner expr)
    (hthen : ∀ m' result j k, m.SameStack m' → j + 1 + k = n →
      after setting (j + 1) (nest setting m (w :: ws) expr env) = deliver setting m' ws w result →
      Course setting ws inner next alone m' (deliver setting m' ws w result) k) :
    Course setting ws inner next alone m (nest setting m (w :: ws) expr env) n := by
  rcases finishes_or_open setting (w :: ws) n (nest setting m (w :: ws) expr env) with
    ⟨-, -, result, m', hfin, -⟩ | hopen
  · have hsame := hfin.sameStack_nest
    obtain ⟨k, hanswer, hbefore⟩ := hfin.proceeds
    rcases Nat.lt_or_ge k n with hlt | hge
    · have hnext : after setting (k + 1) (nest setting m (w :: ws) expr env) =
          deliver setting m' ws w result := by
        rw [after_succ, hanswer]
        rfl
      have hsum : k + 1 + (n - (k + 1)) = n := by omega
      have hcourse := (hthen m' result k (n - (k + 1)) hsame hsum hnext).before hnext hsame
      rwa [hsum] at hcourse
    · exact .inside (Nat.zero_le _) hexpr ⟨rfl, rfl⟩ rfl fun j _ hj => hbefore j (by omega)
  · exact .inside (Nat.zero_le _) hexpr ⟨rfl, rfl⟩ rfl fun j _ hj => hopen j (by omega)

private theorem course_answer (hresult : ∀ v, result = .ok v → alone v) (n : Nat) :
    Course setting ws inner next alone m ⟨m, .answer result, ws⟩ n :=
  .answered (Nat.zero_le n) hresult ⟨rfl, rfl⟩ rfl

/-- An expression of the kind `last` is to be evaluated with nothing but `ws` waiting. -/
def Evaluates (ws : List Waiting) (last : Value → Prop) (m : Machine) (s : State) : Prop :=
  ∃ expr env, last expr ∧ s = ⟨m, .eval expr env, ws⟩

/-- What one step can do for native code that asks for nothing but inner expressions. -/
theorem runNative_cases (setting : Setting) (ws : List Waiting) {program : Native Outcome}
    (context : Held)
    (h : (program m.store).Asks seen inner (Outcome.Leaves last alone)) :
    ∃ m', m.SameStack m' ∧
      ((∃ result, (∀ v, result = .ok v → alone v) ∧
          runNative setting m ws program context = ⟨m', .answer result, ws⟩) ∨
        (∃ expr env, last expr ∧ runNative setting m ws program context = ⟨m', .eval expr env, ws⟩) ∨
        (∃ program', (seen m'.store →
            (program' m'.store).Asks seen inner (Outcome.Leaves last alone)) ∧
          runNative setting m ws program context = ⟨m', .native program' context, ws⟩) ∨
        ∃ expr env resume held, inner expr ∧
          (∀ answer store, seen store →
            (resume answer store).Asks seen inner (Outcome.Leaves last alone)) ∧
          runNative setting m ws program context =
            nest setting m' (.native resume context held :: ws) expr env) := by
  obtain ⟨store, symbols, calls, depth, counters, output⟩ := m
  change (program store).Asks seen inner (Outcome.Leaves last alone) at h
  unfold runNative
  dsimp only
  cases hprogram : program store with
  | done outcome store' =>
    rw [hprogram] at h
    cases outcome with
    | value v =>
      refine ⟨⟨store', symbols, calls, depth, counters, output⟩, ⟨rfl, rfl⟩,
      .inl ⟨.ok v, ?_, rfl⟩⟩
      rintro _ ⟨⟩
      exact h
    | tail expr env => exact ⟨⟨store', symbols, calls, depth, counters, output⟩, ⟨rfl, rfl⟩,
      .inr (.inl ⟨expr, env, h, rfl⟩)⟩
  | fail e store' =>
    refine ⟨⟨store', symbols, calls, depth, counters, output⟩, ⟨rfl, rfl⟩,
      .inl ⟨.error e, ?_, rfl⟩⟩
    rintro _ ⟨⟩
  | endless store' => exact ⟨⟨store', symbols, calls, depth, counters, output⟩, ⟨rfl, rfl⟩,
      .inr (.inr (.inl ⟨Native.endless, fun _ => trivial, rfl⟩))⟩
  | eval expr env held store' resume =>
    rw [hprogram] at h
    exact ⟨⟨store', symbols, calls, depth, counters, output⟩, ⟨rfl, rfl⟩,
      .inr (.inr (.inr ⟨expr, env, resume, held, h.1, h.2, rfl⟩))⟩
  | call procedure args held store' resume =>
    rw [hprogram] at h
    exact h.elim
  | intern name store' resume =>
    rw [hprogram] at h
    refine ⟨(Machine.intern ⟨store', symbols, calls, depth, counters, output⟩ name).2, ?_,
      .inr (.inr (.inl ⟨_, h _ _, rfl⟩))⟩
    unfold Machine.intern
    dsimp only
    split <;> exact ⟨rfl, rfl⟩
  | print text store' resume =>
    rw [hprogram] at h
    exact ⟨Machine.print ⟨store', symbols, calls, depth, counters, output⟩ text, ⟨rfl, rfl⟩,
      .inr (.inr (.inl ⟨resume, h _, rfl⟩))⟩
  | isSole c held store' resume =>
    rw [hprogram] at h
    exact ⟨⟨store', symbols, calls, depth, counters, output⟩, ⟨rfl, rfl⟩,
      .inr (.inr (.inl ⟨_, h _ _, rfl⟩))⟩

/-- The stores of a run up to a moment. -/
def seenBy (setting : Setting) (s : State) (n : Nat) (store : Store) : Prop :=
  ∃ j ≤ n, (after setting j s).machine.store = store

private theorem course_native {program : Native Outcome} (context : Held)
    (h : (program m.store).Asks seen inner (Outcome.Leaves last alone))
    (hseen : ∀ j ≤ n, seen (after setting j ⟨m, .native program context, ws⟩).machine.store) :
    Course setting ws inner (Evaluates ws last) alone m ⟨m, .native program context, ws⟩ n := by
  induction n using Nat.strongRecOn generalizing m program with
  | ind n ih =>
    cases n with
    | zero => exact .own ⟨rfl, rfl⟩ rfl
    | succ n =>
      have hseen' : ∀ j ≤ n, seen (after setting j
          (runNative setting m ws program context)).machine.store :=
        fun j hj => hseen (j + 1) (by omega)
      obtain ⟨m', hsame, hnext⟩ := runNative_cases setting ws context h
      suffices hcourse : Course setting ws inner (Evaluates ws last) alone m'
          (runNative setting m ws program context) n by
        rw [Nat.add_comm]
        exact hcourse.before rfl hsame
      rcases hnext with ⟨result, hresult, heq⟩ | ⟨expr, env, hlast, heq⟩ | ⟨program', hasks, heq⟩ |
        ⟨expr, env, resume, held, hinner, hasks, heq⟩ <;> rw [heq] at hseen' ⊢
      · exact course_answer hresult n
      · exact .replaced (Nat.zero_le n) ⟨rfl, rfl⟩ ⟨expr, env, hlast, rfl⟩
      · exact ih n (Nat.lt_succ_self n) (hasks (hseen' 0 (Nat.zero_le n))) hseen'
      · apply course_nest hinner
        intro m'' answer j k _ hsum hdeliver
        have hbehind : ∀ i ≤ k, seen (after setting i
            (deliver setting m'' ws (.native resume context held) answer)).machine.store := by
          intro i hi
          rw [← hdeliver, ← after_add]
          exact hseen' _ (by omega)
        exact ih k (by omega) (hasks answer m''.store (hbehind 0 (Nat.zero_le k))) hbehind

theorem course_nextBody (frame : FrameId) (context : Held) {body : List Value} (hbody : body ≠ [])
    (n : Nat) :
    Course setting ws (· ∈ body.dropLast) (Evaluates ws (body.getLast? = some ·)) (fun _ => False) m
      (nextBody setting m ws frame context true body) n := by
  induction body generalizing m n with
  | nil => exact absurd rfl hbody
  | cons expr rest ih =>
    cases rest with
    | nil =>
      exact .replaced (Nat.zero_le n) ⟨rfl, rfl⟩ ⟨expr, frame, List.getLast?_singleton, rfl⟩
    | cons next rest =>
      apply course_nest (by simp)
      intro m' result _ k _ _ _
      cases result with
      | error e => exact course_answer (by simp) k
      | ok v =>
        refine (ih (by simp) k).mono ?_ ?_ (fun _ => id)
        · intro e he
          simp [he]
        · rintro _ _ ⟨e, env, he, rfl⟩
          exact ⟨e, env, List.getLast?_cons_cons.trans he, rfl⟩

theorem course_applyClosure (c : ClosureId) (args : List Value) (context : Held) (n : Nat) :
    Course setting ws (· ∈ (m.store.closure c).body.dropLast)
      (Evaluates ws ((m.store.closure c).body.getLast? = some ·)) (fun _ => False) m
      (applyClosure setting m ws c args context true) n := by
  have hbind : m.SameStack ((m.count Counters.countProcedureCall).bindArguments
      (m.store.closure c) args).2 := ⟨rfl, rfl⟩
  unfold applyClosure
  dsimp only
  split <;> rename_i heq <;> rw [heq] at hbind
  · exact .answered (Nat.zero_le n) (by simp) hbind rfl
  · split
    · exact .answered (Nat.zero_le n) (by simp) hbind rfl
    · next hbody =>
      exact (course_nextBody _ context (by simpa using hbody) n).of_sameStack hbind

/-- The closure is to be called, with nothing but `ws` waiting and its body in place of the call. -/
def Calls (setting : Setting) (ws : List Waiting) (c : ClosureId) (m : Machine) (s : State) : Prop :=
  ∃ args context, s = applyClosure setting m ws c args context true

theorem course_nextArgument (c : ClosureId) (site : CallSite) (reversed : List Value) (rest : Value)
    (n : Nat) :
    Course setting ws (fun _ => True) (Calls setting ws c) (fun _ => False) m
      (nextArgument setting m ws c site reversed rest) n := by
  induction n using Nat.strongRecOn generalizing m reversed rest with
  | ind n ih =>
    unfold nextArgument
    split
    · exact .replaced (Nat.zero_le n) ⟨rfl, rfl⟩ ⟨_, _, rfl⟩
    · apply course_nest trivial
      intro m' result j k _ hsum _
      cases result with
      | error e => exact course_answer (by simp) k
      | ok v => exact ih k (by omega) _ _
    · exact course_answer (by simp) n

/-- When the application in cell `c` is evaluated on the machine `m`, its operator comes to `head` and
leaves the machine `m'`. -/
def OperatorIs (setting : Setting) (ws : List Waiting) (m : Machine) (c : CellId) (env : FrameId)
    (head : Value) (m' : Machine) : Prop :=
  Finishes setting (.operator (siteOf m.store c env) :: ws)
    (nest setting (m.count Counters.countExpression) (.operator (siteOf m.store c env) :: ws)
      (m.store.first c) env) (.ok head) m'

/-- An application of a closure, from the moment that its operator is evaluated. -/
theorem course_call {c : CellId} {env : FrameId} {p : ClosureId}
    (h : OperatorIs setting ws m c env (.closure p) m') :
    ∃ k, ∀ n, Course setting ws (fun _ => True) (Calls setting ws p) (fun _ => False) m
      ⟨m, .eval (.pair c) env, ws⟩ (k + n) := by
  obtain ⟨k, hk, -⟩ := proceeds_operator h
  refine ⟨k, fun n => ?_⟩
  exact (course_nextArgument p (siteOf m.store c env) [] _ n).before hk h.sameStack_nest

theorem course_applyHead (form : TailForm) {f : SpecialForm}
    (hform : setting.library.form f = form.rule) (site : CallSite)
    (hseen : ∀ j ≤ n, seen (after setting j (applyHead setting m ws site (.form f))).machine.store) :
    Course setting ws (form.Inner seen m.store site.operands)
      (Evaluates ws (form.Last seen m.store site.operands)) (form.Alone seen m.store site.operands) m (applyHead setting m ws site (.form f)) n := by
  have htransfers : ((setting.library.form f site.operands site.env)
      (m.count Counters.countForm).store).Asks seen (form.Inner seen m.store site.operands)
      (Outcome.Leaves (form.Last seen m.store site.operands)
        (form.Alone seen m.store site.operands)) := by
    rw [hform]
    exact form.transfers seen m.store site.operands site.env
  exact (course_native site.held htransfers hseen).of_sameStack ⟨rfl, rfl⟩

/-- The course of a form whose rule began with these operands on this store. -/
def FormCourse (setting : Setting) (ws : List Waiting) (form : TailForm) (store : Store)
    (operands : Value) (m : Machine) (s : State) (n : Nat) : Prop :=
  Course setting ws (form.Inner (seenBy setting s n) store operands)
    (Evaluates ws (form.Last (seenBy setting s n) store operands))
    (form.Alone (seenBy setting s n) store operands) m s n

theorem course_form (form : TailForm) {f : SpecialForm} (hform : setting.library.form f = form.rule)
    {c : CellId} {env : FrameId}
    (h : OperatorIs setting ws m c env (.form f) m') :
    ∃ k, ∀ n, FormCourse setting ws form m'.store (m.store.rest c) m ⟨m, .eval (.pair c) env, ws⟩
      (k + n) := by
  obtain ⟨k, hk, -⟩ := proceeds_operator h
  refine ⟨k, fun n => ?_⟩
  refine (course_applyHead form hform (siteOf m.store c env) ?_).before hk h.sameStack_nest
  intro j hj
  exact ⟨k + j, by omega, by rw [after_add, hk]⟩

/-- The nested evaluations under way above `ws`. -/
def levelsAbove (ws : List Waiting) (s : State) : Nat :=
  ((s.waiting.take (s.waiting.length - ws.length)).map Waiting.levels).sum

private theorem Accounts.depth_eq_add {base : List Waiting} {values vs : List Value} {depth d : Nat}
    (h : Accounts base values depth ws vs d) :
    d = depth + ((ws.take (ws.length - base.length)).map Waiting.levels).sum := by
  induction h with
  | entry => simp
  | @above ws _ _ w args rest pushed ih =>
    obtain ⟨above, rfl⟩ := rest.suffix
    rw [ih]
    simp only [List.length_append, List.length_cons]
    rw [show above.length + base.length + 1 - base.length =
      above.length + base.length - base.length + 1 by omega, List.take_succ_cons, List.map_cons,
      List.sum_cons]
    omega

theorem sameStack_of_waiting (hs : s.waiting = ws)
    (hopen : ∀ k ≤ n, ¬ (after setting k s).AnswersTo ws) (hn : (after setting n s).waiting = ws) :
    s.machine.SameStack (after setting n s).machine := by
  subst hs
  have hwithin : Within s.waiting s.machine.calls.values.toList s.machine.depth s :=
    balanced_entry s.waiting s.machine
  obtain ⟨hvalues, hdepth⟩ := (within_after hwithin hopen).eq_of_base hn
  exact ⟨Array.toList_inj.mp hvalues, hdepth⟩

private theorem depth_eq_levelsAbove (hs : s.waiting = ws)
    (hopen : ∀ k ≤ n, ¬ (after setting k s).AnswersTo ws) :
    (after setting n s).machine.depth = s.machine.depth + (after setting n s).levelsAbove ws := by
  subst hs
  have hwithin : Within s.waiting s.machine.calls.values.toList s.machine.depth s :=
    balanced_entry s.waiting s.machine
  exact (within_after hwithin hopen).depth_eq_add

/-- The moments of `k` tail transfers, one after the other, that replace the expression which is being
evaluated for `ws` in the state `s`: each time an expression is evaluated with nothing but `ws`
waiting. -/
structure TailChain (setting : Setting) (ws : List Waiting) (s : State) (k : Nat)
    (moment : Nat → Nat) : Prop where
  start : moment 0 = 0
  later : ∀ i < k, moment i < moment (i + 1)
  transfer : ∀ i ≤ k, ∃ m expr env, after setting (moment i) s = ⟨m, .eval expr env, ws⟩
  unanswered : ∀ n ≤ moment k, ¬ (after setting n s).AnswersTo ws

/-- The largest depth from the moment `a` to the moment `b` of a run. -/
def peak (setting : Setting) (s : State) (a b : Nat) : Nat :=
  (Finset.Icc a b).sup fun n => (after setting n s).machine.depth

/-- The most levels that the nested evaluations above `ws` take from the moment `a` to the moment
`b`. -/
def rise (setting : Setting) (ws : List Waiting) (s : State) (a b : Nat) : Nat :=
  (Finset.Icc a b).sup fun n => (after setting n s).levelsAbove ws

namespace TailChain

variable {k : Nat} {moment : Nat → Nat}

private theorem waiting (h : TailChain setting ws s k moment) {i : Nat} (hi : i ≤ k) :
    (after setting (moment i) s).waiting = ws := by
  obtain ⟨m, expr, env, heq⟩ := h.transfer i hi
  rw [heq]

private theorem waiting_start (h : TailChain setting ws s k moment) : s.waiting = ws := by
  have hwaiting := h.waiting (Nat.zero_le k)
  rwa [h.start] at hwaiting

theorem mono (h : TailChain setting ws s k moment) {i j : Nat} (hij : i ≤ j) (hj : j ≤ k) :
    moment i ≤ moment j := by
  induction hij with
  | refl => exact Nat.le_refl _
  | @step j _ ih =>
    have hle : moment i ≤ moment j := ih (Nat.le_of_succ_le hj)
    exact Nat.le_trans hle (Nat.le_of_lt (h.later j hj))

theorem sameStack (h : TailChain setting ws s k moment) {i : Nat} (hi : i ≤ k) :
    s.machine.SameStack (after setting (moment i) s).machine := by
  have hle := h.mono hi (Nat.le_refl k)
  exact sameStack_of_waiting h.waiting_start (fun n hn => h.unanswered n (by omega)) (h.waiting hi)

private theorem depth_eq (h : TailChain setting ws s k moment) {n : Nat} (hn : n ≤ moment k) :
    (after setting n s).machine.depth = s.machine.depth + (after setting n s).levelsAbove ws :=
  depth_eq_levelsAbove h.waiting_start fun j hj => h.unanswered j (by omega)

/-- A moment of the chain lies between two transfers. -/
theorem exists_step (h : TailChain setting ws s k moment) {j n : Nat} (hj : j ≤ k)
    (hn : n ≤ moment j) : n = 0 ∨ ∃ i < j, n ∈ Finset.Icc (moment i) (moment (i + 1)) := by
  induction j with
  | zero =>
    rw [h.start] at hn
    exact .inl (by omega)
  | succ j ih =>
    rcases Nat.le_total n (moment j) with hle | hge
    · rcases ih (by omega) hle with hzero | ⟨i, hi, hmem⟩
      · exact .inl hzero
      · exact .inr ⟨i, by omega, hmem⟩
    · exact .inr ⟨j, by omega, Finset.mem_Icc.mpr ⟨hge, hn⟩⟩

/-- The largest depth of a chain is that of the start and the most levels that one of its steps takes
for nested evaluations. -/
theorem peak_eq (h : TailChain setting ws s k moment) :
    peak setting s 0 (moment k) =
      s.machine.depth +
        (Finset.range k).sup fun i => rise setting ws s (moment i) (moment (i + 1)) := by
  have hbase : s.machine.depth ≤ peak setting s 0 (moment k) :=
    Finset.le_sup (f := fun n => (after setting n s).machine.depth)
      (Finset.mem_Icc.mpr ⟨Nat.le_refl 0, Nat.zero_le _⟩)
  apply Nat.le_antisymm
  · apply Finset.sup_le
    intro n hn
    have hle := (Finset.mem_Icc.mp hn).2
    rw [h.depth_eq hle]
    apply Nat.add_le_add_left
    rcases h.exists_step (Nat.le_refl k) hle with rfl | ⟨i, hi, hmem⟩
    · have hlevels : (after setting 0 s).levelsAbove ws = 0 := by
        simp [levelsAbove, after, h.waiting_start]
      rw [hlevels]
      exact Nat.zero_le _
    · calc (after setting n s).levelsAbove ws
          ≤ rise setting ws s (moment i) (moment (i + 1)) :=
            Finset.le_sup (f := fun n => (after setting n s).levelsAbove ws) hmem
        _ ≤ _ := Finset.le_sup (f := fun i => rise setting ws s (moment i) (moment (i + 1)))
            (Finset.mem_range.mpr hi)
  · have hsup : ((Finset.range k).sup fun i => rise setting ws s (moment i) (moment (i + 1))) ≤
        peak setting s 0 (moment k) - s.machine.depth := by
      apply Finset.sup_le
      intro i hi
      apply Finset.sup_le
      intro n hn
      have hi := Finset.mem_range.mp hi
      have hn := (Finset.mem_Icc.mp hn).2
      have hle : moment (i + 1) ≤ moment k := h.mono hi (Nat.le_refl k)
      have hdepth : (after setting n s).machine.depth ≤ peak setting s 0 (moment k) :=
        Finset.le_sup (f := fun n => (after setting n s).machine.depth)
          (Finset.mem_Icc.mpr ⟨Nat.zero_le n, by omega⟩)
      rw [h.depth_eq (by omega)] at hdepth
      omega
    omega

/-- However long the chain, steps that take at most `r` levels keep it within `r` levels. -/
theorem peak_le (h : TailChain setting ws s k moment) {r : Nat}
    (hr : ∀ i < k, rise setting ws s (moment i) (moment (i + 1)) ≤ r) :
    peak setting s 0 (moment k) ≤ s.machine.depth + r := by
  rw [h.peak_eq]
  exact Nat.add_le_add_left (Finset.sup_le fun i hi => hr i (Finset.mem_range.mp hi)) _

end TailChain

end State
end MiniScheme
