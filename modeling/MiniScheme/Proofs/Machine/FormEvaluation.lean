import MiniScheme.Proofs.Machine.Application
import MiniScheme.Proofs.Native.Forms
/-! # Special forms under evaluation

A special form is recognised by the value of its first name. Its rule then runs as native code, which
has expressions evaluated one after the other and goes on with their values. Two such pieces of code
that ask for the same expressions come to the same as long as they go on alike.
-/
namespace MiniScheme

/-- To an evaluation in this setting the machines are the same: they have the same effects behind them
and the limit, if there is one, at the same distance. -/
structure Machine.Matches (setting : Setting) (m m' : Machine) : Prop extends
    m.SameEffects m' where
  depth : setting.maxDepth = none ∨ m'.depth = m.depth

namespace Machine.Matches

variable {setting : Setting} {m m' m₁ m₂ : Machine}

theorem refl (setting : Setting) (m : Machine) : m.Matches setting m := ⟨.refl m, .inr rfl⟩

theorem advance (h : m.Matches setting m') (heffects : m₁.SameEffects m₂) (hm : m.SameStack m₁)
    (hm' : m'.SameStack m₂) : m₁.Matches setting m₂ := by
  refine ⟨heffects, h.depth.imp_right fun hdepth => ?_⟩
  rw [hm'.2, hdepth, hm.2]

theorem idle (h : m.Matches setting m') (he : m.SameEffects m₁) (hm : m.SameStack m₁)
    (he' : m'.SameEffects m₂) (hm' : m'.SameStack m₂) : m₁.Matches setting m₂ :=
  h.advance (he.symm.trans (h.toSameEffects.trans he')) hm hm'

theorem withStore (h : m.Matches setting m') (store : Store) :
    Machine.Matches setting { m with store := store } { m' with store := store } :=
  ⟨⟨rfl, h.symbols, h.output⟩, h.depth⟩

end Machine.Matches

theorem Forms.operandList_of_spine {store : Store} {operands : Value} {items : List Value}
    (h : store.spine operands = .proper items) (form : String) :
    operandList form operands store = .done items store := by
  simp only [operandList, Native.elements, Native.read, bind, h, Interaction.bind, pure]

/-- In `env` the first name of pair `c` names the special form with this rule. -/
def Names (library : Library) (store : Store) (env : FrameId) (c : CellId) (rule : NativeForm) :
    Prop :=
  ∃ x f, store.first c = .symbol x ∧ store.lookup env x = .ok (.form f) ∧ library.form f = rule

namespace State

variable {setting : Setting} {ws ws' : List Waiting} {m m' : Machine} {env : FrameId}
  {context context' held held' : Held}

theorem proceeds_form {c : CellId} {rule : NativeForm}
    (h : Names setting.library m.store env c rule) (hallows : setting.Allows m.depth)
    (ws : List Waiting) :
    ∃ m', m.SameEffects m' ∧ m.SameStack m' ∧
      Proceeds setting ws ⟨m, .eval (.pair c) env, ws⟩
        ⟨m', .native (rule (m.store.rest c) env) (siteOf m.store c env).held, ws⟩ := by
  obtain ⟨x, f, hfirst, hlookup, rfl⟩ := h
  have hhead : Settles setting m.store m.depth env (m.store.first c) (.form f) := by
    rw [hfirst]
    exact (yields_symbol hlookup).settles hallows
  obtain ⟨m', heffects, hsame, hproceeds⟩ := proceeds_application ws hhead rfl rfl
  exact ⟨m'.count Counters.countForm, ⟨heffects.store, heffects.symbols, heffects.output⟩, hsame,
    hproceeds⟩

theorem proceeds_nested_form {c : CellId} {rule : NativeForm}
    (h : Names setting.library m.store env c rule) (hallows : setting.Allows (m.depth + 1))
    (ws : List Waiting) :
    ∃ m', m.SameEffects m' ∧
      Proceeds setting ws (nest setting m ws (.pair c) env)
        ⟨m', .native (rule (m.store.rest c) env) (siteOf m.store c env).held,
          .nested (.pair c) env :: ws⟩ := by
  obtain ⟨m', heffects, -, hproceeds⟩ := proceeds_form (m := m.deeper) h hallows
    (.nested (.pair c) env :: ws)
  refine ⟨m', ⟨heffects.store, heffects.symbols, heffects.output⟩, ?_⟩
  rw [nest_of_allows (hallows.mono (Nat.le_succ _))]
  exact hproceeds.above [.nested (.pair c) env] (balanced_entry _ m.deeper)

theorem finishes_nested_value {program : Native Outcome} {v expr : Value} {store : Store}
    (h : program m.store = .done (.value v) store) :
    ∃ m', Finishes setting ws ⟨m, .native program context, .nested expr env :: ws⟩ (.ok v) m' ∧
      m'.store = store ∧ m'.symbols = m.symbols ∧ m'.output = m.output := by
  refine ⟨{ m with store := store, depth := m.depth - 1 }, .later not_answersTo_native ?_, rfl, rfl,
    rfl⟩
  simp only [step, runNative, h]
  exact finishes_nested _ ws _ expr env (.ok v)

theorem finishes_nested_fail {program : Native Outcome} {e : EvalError} {expr : Value}
    {store : Store} (h : program m.store = .fail e store) :
    Finishes setting ws ⟨m, .native program context, .nested expr env :: ws⟩ (.error e)
      { m with store := store, depth := m.depth - 1 } := by
  apply Finishes.later not_answersTo_native
  simp only [step, runNative, h]
  exact finishes_nested _ ws _ expr env (.error e)

theorem endless_native {program : Native Outcome} {store : Store}
    (h : program m.store = .endless store) (base : List Waiting) (n : Nat) :
    ¬ (after setting n ⟨m, .native program context, ws⟩).AnswersTo base := by
  cases n with
  | zero => exact not_answersTo_native
  | succ n =>
    have hstep : (⟨m, .native program context, ws⟩ : State).step setting =
        ⟨{ m with store := store }, .native Native.endless context, ws⟩ := by
      simp only [step, runNative, h]
    rw [after, hstep]
    generalize { m with store := store } = m
    induction n with
    | zero => exact not_answersTo_native
    | succ n ih => exact ih

/-- What holds at every moment of a finished run holds wherever the run gets. -/
theorem Proceeds.of_moments {s t : State} {n : Nat} {P : State → Prop}
    (hend : (State.after setting n s).result?.isSome)
    (hP : ∀ k < n + 1, P (State.after setting k s)) (h : Proceeds setting [] s t) : P t := by
  obtain ⟨k, rfl, hopen⟩ := h
  refine hP k ?_
  by_contra hlt
  obtain ⟨result, hresult⟩ := Option.isSome_iff_exists.mp hend
  apply hopen n (by omega)
  rw [result?_eq_some_iff.mp hresult]
  exact ⟨result, rfl, rfl⟩

theorem finishes_form_of_limit {c : CellId} {rule : NativeForm}
    (h : Names setting.library m.store env c rule) {limit : Nat}
    (hmax : setting.maxDepth = some limit) (hlimit : limit ≤ m.depth) (ws : List Waiting) :
    ∃ m', m.SameEffects m' ∧
      Finishes setting ws ⟨m, .eval (.pair c) env, ws⟩ (.error (.stackOverflow limit)) m' := by
  obtain ⟨x, f, hfirst, -, -⟩ := h
  refine ⟨m.count Counters.countExpression, ⟨rfl, rfl, rfl⟩, .later not_answersTo_eval ?_⟩
  have hnest : (⟨m, .eval (.pair c) env, ws⟩ : State).step setting =
      fail (m.count Counters.countExpression) (.operator (siteOf m.store c env) :: ws)
        (.stackOverflow limit) := by
    simp only [step, evalExpr, nest, hmax]
    exact if_pos hlimit
  rw [hnest]
  apply Finishes.later not_answersTo_cons
  have herror : headError m.store (siteOf m.store c env) (.stackOverflow limit) =
      .stackOverflow limit := by
    simp only [headError, siteOf, hfirst]
    rfl
  simp only [fail, step, deliver]
  rw [show (m.count Counters.countExpression).store = m.store from rfl, herror]
  exact .now _ _

/-- How native code goes on with the answer to a question. -/
def resumed (next : Value → Native Outcome) (answer : Except EvalError Value) : Native Outcome :=
  fun store => (Interaction.ofExcept answer store).bind next

section Asking

variable {program program' : Native Outcome} {expr : Value} {store : Store}
  {next next' : Value → Native Outcome}

theorem proceeds_asking (h : program m.store = .eval expr env held store (resumed next)) :
    Proceeds setting ws ⟨m, .native program context, ws⟩
      (nest setting { m with store := store } (.native (resumed next) context held :: ws) expr
        env) := by
  apply Proceeds.next not_answersTo_native
  simp only [step, runNative, h]
  exact .refl _

theorem proceeds_eval {v : Value} (h : program m.store = .eval expr env held store (resumed next))
    (hvalue : Finishes setting (.native (resumed next) context held :: ws)
      (nest setting { m with store := store } (.native (resumed next) context held :: ws) expr env)
      (.ok v) m') :
    Proceeds setting ws ⟨m, .native program context, ws⟩ ⟨m', .native (next v) context, ws⟩ :=
  (proceeds_asking h).trans hvalue.deliver_nest

theorem finishes_resumed_error {e : EvalError} (m : Machine) :
    Finishes setting ws ⟨m, .answer (.error e), .native (resumed next) context held :: ws⟩
      (.error e) m :=
  .later not_answersTo_cons (finishes_native_fail rfl)

theorem endless_nest {w : Waiting} {expr : Value} (hendless : ∀ n, ¬ (after setting n
      (nest setting m (w :: ws) expr env)).AnswersTo (w :: ws)) (n : Nat) :
    ¬ (after setting n (nest setting m (w :: ws) expr env)).AnswersTo ws := by
  rw [← List.singleton_append] at hendless
  exact not_answersTo_of_above (within_nest (balanced_entry _ _) expr env) fun k _ => hendless k

/-- Code that asks for the same expression and goes on alike with its value. -/
theorem concur_eval (h : Machine.Matches setting { m with store := store } { m' with store := store })
    (hask : program m.store = .eval expr env held store (resumed next))
    (hask' : program' m'.store = .eval expr env held' store (resumed next'))
    (hnext : ∀ v m₁ m₂, m₁.Matches setting m₂ → m'.SameStack m₂ →
      Proceeds setting ws' ⟨m', .native program' context', ws'⟩
        ⟨m₂, .native (next' v) context', ws'⟩ →
      Concur setting setting ws ws' ⟨m₁, .native (next v) context, ws⟩
        ⟨m₂, .native (next' v) context', ws'⟩) :
    Concur setting setting ws ws' ⟨m, .native program context, ws⟩
      ⟨m', .native program' context', ws'⟩ := by
  have hmatches : Setting.Matches
      ⟨.native (resumed next) context held :: ws, m.calls.values.toList, m.depth⟩
      ⟨.native (resumed next') context' held' :: ws', m'.calls.values.toList, m'.depth⟩
      setting setting :=
    ⟨rfl, rfl, h.depth⟩
  have hlevel := level_of_sameEffects h.toSameEffects
    (.native (resumed next) context held :: ws) (.native (resumed next') context' held' :: ws')
  refine .of_proceeds (proceeds_asking hask) (proceeds_asking hask') ?_
  apply Concur.rebase [_] [_] ((hlevel.nest hmatches expr env).concur hmatches)
    (within_nest (balanced_entry _ _) expr env) (within_nest (balanced_entry _ _) expr env)
  intro result m₁ m₂ heffects hfin hfin'
  cases result with
  | ok v =>
    refine .of_proceeds (.next not_answersTo_cons (.refl _)) (.next not_answersTo_cons (.refl _)) ?_
    exact hnext v m₁ m₂ (h.advance heffects hfin.sameStack_nest hfin'.sameStack_nest)
      hfin'.sameStack_nest (proceeds_eval hask' hfin')
  | error e => exact .finish (finishes_resumed_error m₁) (finishes_resumed_error m₂) heffects

end Asking

theorem concur_tail (h : m.Matches setting m') (expr : Value) (env : FrameId) :
    Concur setting setting ws ws' ⟨m, .eval expr env, ws⟩ ⟨m', .eval expr env, ws'⟩ := by
  have hmatches : Setting.Matches ⟨ws, m.calls.values.toList, m.depth⟩
      ⟨ws', m'.calls.values.toList, m'.depth⟩ setting setting :=
    ⟨rfl, rfl, h.depth⟩
  have halong : Alongside _ _ ⟨m, .eval expr env, ws⟩ ⟨m', .eval expr env, ws'⟩ :=
    ⟨level_of_sameEffects h.toSameEffects ws ws', .eval expr env⟩
  exact halong.concur hmatches

theorem proceeds_tail {program : Native Outcome} {expr : Value} {store : Store}
    (h : program m.store = .done (.tail expr env) store) :
    Proceeds setting ws ⟨m, .native program context, ws⟩
      ⟨{ m with store := store }, .eval expr env, ws⟩ := by
  apply Proceeds.next not_answersTo_native
  simp only [step, runNative, h]
  exact .refl _

theorem concur_value {program program' : Native Outcome} {v : Value} {store : Store}
    (h : Machine.Matches setting { m with store := store } { m' with store := store })
    (hvalue : program m.store = .done (.value v) store)
    (hvalue' : program' m'.store = .done (.value v) store) :
    Concur setting setting ws ws' ⟨m, .native program context, ws⟩
      ⟨m', .native program' context', ws'⟩ :=
  .finish (finishes_native_value hvalue) (finishes_native_value hvalue') h.toSameEffects

/-- Code that comes to the same expressions in sequence. -/
theorem concur_sequence {program program' : Native Outcome} {body : List Value} {store : Store}
    (h : Machine.Matches setting { m with store := store } { m' with store := store })
    (hseq : program m.store = Forms.sequence held env body store)
    (hseq' : program' m'.store = Forms.sequence held' env body store) :
    Concur setting setting ws ws' ⟨m, .native program context, ws⟩
      ⟨m', .native program' context', ws'⟩ := by
  induction body generalizing m m' program program' store with
  | nil => exact concur_value h hseq hseq'
  | cons expr rest ih =>
    cases rest with
    | nil =>
      exact .of_proceeds (proceeds_tail hseq) (proceeds_tail hseq')
        (concur_tail h expr env)
    | cons following rest =>
      refine concur_eval h hseq hseq' fun v m₁ m₂ hmatches _ _ => ?_
      exact ih (hmatches.withStore m₁.store) rfl (by rw [hmatches.store])

end State
end MiniScheme
