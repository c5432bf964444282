import MiniScheme.Proofs.Alike.Machine
import MiniScheme.Proofs.Machine.FormEvaluation
import MiniScheme.Proofs.Machine.Underneath
/-! # Alike evaluations above different work

Alike expressions are evaluated in step with each other above different work, provided both evaluations
answer alike who holds a closure: what each of them has waiting must reach the same, whatever its form.
Whether it does depends on the store of the moment, so something may have to hold of all stores that
the evaluations pass through.
-/
namespace MiniScheme.State

variable {K : Terms} {L L' : Link K} {g g' : Setting} {base base' ws ws' : List Waiting}
  {s s' t t' : State} {values values' : List Value} {depth depth' : Nat} {P P' : Store → Prop}

/-- Until the state answers `base`, every store is as `P` says. -/
def Throughout (setting : Setting) (base : List Waiting) (P : Store → Prop) (s : State) : Prop :=
  ∀ t, Proceeds setting base s t → P t.machine.store

theorem Throughout.of_proceeds (h : Throughout g base P s) (ht : Proceeds g base s t) :
    Throughout g base P t :=
  fun _ hu => h _ (ht.trans hu)

private theorem Throughout.above {above : List Waiting} (h : Throughout g base P s)
    (hs : Within (above ++ base) values depth s) : Throughout g (above ++ base) P s :=
  fun _ ht => h _ (ht.above above hs)

theorem Throughout.now (h : Throughout g base P s) : P s.machine.store := h s (.refl s)

theorem Throughout.of_moments {n : Nat} (hend : (State.after g n s).result?.isSome)
    (hP : ∀ k < n + 1, P (State.after g k s).machine.store) : Throughout g [] P s :=
  fun _ ht => ht.of_moments (P := fun t => P t.machine.store) hend hP

/-- What evaluation above nothing comes to it comes to above `base`. -/
theorem Proceeds.onto (h : Proceeds (g.bearing base) [] s t) :
    Proceeds g base (s.onto base) (t.onto base) := by
  obtain ⟨n, rfl, hopen⟩ := h
  refine ⟨n, after_onto n hopen, fun k hk => ?_⟩
  rw [after_onto k fun j hj => hopen j (Nat.lt_trans hj hk), answersTo_onto_iff]
  exact hopen k hk

private theorem Throughout.bearing (h : Throughout g base P (s.onto base)) :
    Throughout (g.bearing base) [] P s :=
  fun t ht => h (t.onto base) ht.onto

/-- Two evaluations, the one for `base` and the other for `base'`, come to alike results and leave alike
machines, or neither comes to an end. -/
inductive Corresponds (L : Link K) (g g' : Setting) (base base' : List Waiting) (s s' : State) : Prop
  | finish {L' : Link K} {a b : Except EvalError Value} {m m' : Machine} (le : L ≤ L')
    (left : Finishes g base s a m) (right : Finishes g' base' s' b m')
    (result : Answer K.error (Value.Alike L') a b) (machine : m.Alike L' m')
  | endless (left : ∀ n, ¬ (after g n s).AnswersTo base)
    (right : ∀ n, ¬ (after g' n s').AnswersTo base')

namespace Corresponds

private theorem of_le (hle : L ≤ L') (h : Corresponds L' g g' base base' s s') :
    Corresponds L g g' base base' s s' := by
  cases h with
  | finish le left right result machine => exact .finish (hle.trans le) left right result machine
  | endless left right => exact .endless left right

theorem of_proceeds (hs : Proceeds g base s t) (hs' : Proceeds g' base' s' t')
    (h : Corresponds L g g' base base' t t') : Corresponds L g g' base base' s s' := by
  cases h with
  | finish le left right result machine =>
    exact .finish le (hs.finishes left) (hs'.finishes right) result machine
  | endless left right => exact .endless (hs.endless left) (hs'.endless right)

private theorem onto (h : Corresponds L (g.bearing base) (g'.bearing base') [] [] s s') :
    Corresponds L g g' base base' (s.onto base) (s'.onto base') := by
  cases h with
  | finish le left right result machine =>
    exact .finish le (left.proceeds.onto.finishes (.now _ _))
      (right.proceeds.onto.finishes (.now _ _)) result machine
  | endless left right =>
    have hendless {g : Setting} {base : List Waiting} {s : State}
        (h : ∀ n, ¬ (after (g.bearing base) n s).AnswersTo []) (n : Nat) :
        ¬ (after g n (s.onto base)).AnswersTo base := by
      rw [after_onto n fun k _ => h k, answersTo_onto_iff]
      exact h n
    exact .endless (hendless left) (hendless right)

theorem rebase (above above' : List Waiting)
    (h : Corresponds L g g' (above ++ base) (above' ++ base') s s')
    (hs : Within (above ++ base) values depth s) (hs' : Within (above' ++ base') values' depth' s')
    (hthen : ∀ L' a b m m', L ≤ L' → Answer K.error (Value.Alike L') a b → m.Alike L' m' →
      Finishes g (above ++ base) s a m → Finishes g' (above' ++ base') s' b m' →
      Corresponds L' g g' base base' ⟨m, .answer a, above ++ base⟩
        ⟨m', .answer b, above' ++ base'⟩) :
    Corresponds L g g' base base' s s' := by
  cases h with
  | finish le left right result machine =>
    exact .of_le le (.of_proceeds (left.proceeds.above above hs) (right.proceeds.above above' hs')
      (hthen _ _ _ _ _ le result machine left right))
  | endless left right =>
    refine .endless (fun n => ?_) (fun n => ?_)
    · exact not_answersTo_of_above hs fun k _ => left k
    · exact not_answersTo_of_above hs' fun k _ => right k

end Corresponds

private theorem Alike.answersTo_iff (h : s.Alike L s') : s.AnswersTo [] ↔ s'.AnswersTo [] := by
  obtain ⟨m, control, waiting⟩ := s
  obtain ⟨m', control', waiting'⟩ := s'
  obtain ⟨-, hcontrol, hwaiting⟩ := h
  cases hcontrol <;> cases hwaiting <;> simp [AnswersTo]

/-- In alike stores that are as `P` and `P'` say the callers hold on to the same, but for `own` objects
and `shared` ones. -/
def HoldAlike (K : Terms) (own shared : Ref → Prop) (P P' : Store → Prop) (caller caller' : Held) :
    Prop :=
  ∀ (L : Link K) s s', s.Alike L s' → P s → P' s' →
    Moored K own shared s s' caller.refs caller'.refs

section Lockstep

variable {own shared : Ref → Prop} (hmoored : HoldAlike K own shared P P' g.caller g'.caller)
  (hK : K.strict) (hg : g.Akin K g')

include hmoored hK hg

theorem Alike.after_of_moored (hs : s.Alike L s') (hwithin : Within [] values depth s)
    (hP : Throughout g [] P s) (hP' : Throughout g' [] P' s') (n : Nat)
    (hopen : ∀ k < n, ¬ (State.after g k s).AnswersTo []) :
    (∃ L', L ≤ L' ∧ (State.after g n s).Alike L' (State.after g' n s')) ∧
      ∀ k < n, ¬ (State.after g' k s').AnswersTo [] := by
  induction n with
  | zero => exact ⟨⟨L, le_refl L, hs⟩, by simp⟩
  | succ n ih =>
    obtain ⟨⟨L₁, hle₁, halike⟩, hopen'⟩ := ih fun k hk => hopen k (Nat.lt_succ_of_lt hk)
    have hnow : ∀ k < n + 1, ¬ (State.after g' k s').AnswersTo [] := by
      intro k hk
      rcases Nat.lt_succ_iff_lt_or_eq.mp hk with hlt | rfl
      · exact hopen' k hlt
      · exact fun hanswers => hopen k hk (halike.answersTo_iff.mpr hanswers)
    have hP := hP _ ⟨n + 1, rfl, hopen⟩
    have hP' := hP' _ ⟨n + 1, rfl, hnow⟩
    rw [after_succ] at hP hP'
    rw [after_succ, after_succ]
    have hsole : SoleAlike K g g' (State.after g n s) (State.after g' n s') :=
      halike.soleAlike_of_moored fun L₂ _ hstore => hmoored L₂ _ _ hstore hP hP'
    obtain ⟨L₂, hle₂, hstep⟩ := halike.step_of_soleAlike hg (within_after_nil hwithin n).stocked
      hsole (.inl hK)
    exact ⟨⟨L₂, hle₁.trans hle₂, hstep⟩, hnow⟩

private theorem Alike.corresponds (hs : s.Alike L s') (hwithin : Within [] values depth s)
    (hP : Throughout g [] P s) (hP' : Throughout g' [] P' s') :
    Corresponds L g g' [] [] s s' := by
  classical
  by_cases hend : ∃ n, (State.after g n s).AnswersTo []
  · obtain ⟨⟨L', hle, halike⟩, hopen'⟩ := hs.after_of_moored hmoored hK hg hwithin hP hP'
      (Nat.find hend) fun k hk => Nat.find_min hend hk
    have hproceeds : Proceeds g [] s (State.after g (Nat.find hend) s) :=
      ⟨_, rfl, fun k hk => Nat.find_min hend hk⟩
    have hproceeds' : Proceeds g' [] s' (State.after g' (Nat.find hend) s') := ⟨_, rfl, hopen'⟩
    have hanswers := Nat.find_spec hend
    generalize State.after g (Nat.find hend) s = u at hanswers halike hproceeds
    generalize State.after g' (Nat.find hend) s' = u' at halike hproceeds'
    have hanswers' := halike.answersTo_iff.mp hanswers
    obtain ⟨m, control, waiting⟩ := u
    obtain ⟨m', control', waiting'⟩ := u'
    obtain ⟨a, rfl, rfl⟩ := hanswers
    obtain ⟨b, rfl, rfl⟩ := hanswers'
    obtain ⟨hmachine, hcontrol, -⟩ := halike
    cases hcontrol with
    | answer hresult =>
      exact .finish hle (hproceeds.finishes (.now m a)) (hproceeds'.finishes (.now m' b)) hresult
        hmachine
  · refine .endless (not_exists.mp hend) fun n hanswers' => ?_
    obtain ⟨⟨L', -, halike⟩, -⟩ := hs.after_of_moored hmoored hK hg hwithin hP hP' n
      fun k _ => not_exists.mp hend k
    exact hend ⟨n, halike.answersTo_iff.mpr hanswers'⟩

end Lockstep

theorem corresponds_nest {w w' : Waiting} {m m' : Machine} {v v' : Value} {env : FrameId}
    {own shared : Ref → Prop}
    (hmoored : HoldAlike K own shared P P' (g.bearing (w :: ws)).caller
      (g'.bearing (w' :: ws')).caller)
    (hK : K.strict) (hg : g.Akin K g') (hm : m.Alike L m') (hv : v.Alike L v')
    (hP : Throughout g ws P (nest g m (w :: ws) v env))
    (hP' : Throughout g' ws' P' (nest g' m' (w' :: ws') v' env))
    (hthen : ∀ L' a b m₁ m₁', L ≤ L' → Answer K.error (Value.Alike L') a b → m₁.Alike L' m₁' →
      Finishes g (w :: ws) (nest g m (w :: ws) v env) a m₁ →
      Finishes g' (w' :: ws') (nest g' m' (w' :: ws') v' env) b m₁' →
      Corresponds L' g g' ws ws' ⟨m₁, .answer a, w :: ws⟩ ⟨m₁', .answer b, w' :: ws'⟩) :
    Corresponds L g g' ws ws' (nest g m (w :: ws) v env) (nest g' m' (w' :: ws') v' env) := by
  have honto (g : Setting) (m : Machine) (w : Waiting) (ws : List Waiting) (v : Value) :
      nest g m (w :: ws) v env = (nest (g.bearing (w :: ws)) m [] v env).onto (w :: ws) :=
    nest_onto g (w :: ws) m [] v env
  have hwithin (g : Setting) (m : Machine) (w : Waiting) (ws : List Waiting) (v : Value) :
      Within ([w] ++ ws) m.calls.values.toList m.depth (nest g m (w :: ws) v env) :=
    within_nest (balanced_entry _ m) v env
  have hinside : Corresponds L (g.bearing (w :: ws)) (g'.bearing (w' :: ws')) [] []
      (nest (g.bearing (w :: ws)) m [] v env) (nest (g'.bearing (w' :: ws')) m' [] v' env) := by
    have hakin : (g.bearing (w :: ws)).Akin K (g'.bearing (w' :: ws')) := ⟨hg.library, hg.maxDepth⟩
    refine (alike_nest hakin hm .nil hv env).corresponds hmoored hK hakin
      (within_nest (balanced_entry [] m) v env) (.bearing ?_) (.bearing ?_)
    · rw [← honto]
      exact hP.above (hwithin g m w ws v)
    · rw [← honto]
      exact hP'.above (hwithin g' m' w' ws' v')
  have hwhole := hinside.onto
  rw [← honto, ← honto] at hwhole
  exact hwhole.rebase [w] [w'] (hwithin g m w ws v) (hwithin g' m' w' ws' v') hthen

/-- Native code has an expression evaluated; an alike one is evaluated for work of another kind, which
passes on errors as they are. Then it depends on how both go on with the values. -/
theorem corresponds_asking {program : Native Outcome} {next : Value → Native Outcome}
    {context held : Held} {w' : Waiting} {m m' : Machine} {store : Store} {v v' : Value}
    {env : FrameId} {own shared : Ref → Prop}
    (hask : program m.store = .eval v env held store (resumed next))
    (hfail : ∀ m e, deliver g' m ws' w' (.error e) = fail m ws' e)
    (hmoored : HoldAlike K own shared P P'
      (g.bearing (.native (resumed next) context held :: ws)).caller (g'.bearing (w' :: ws')).caller)
    (hK : K.strict) (hg : g.Akin K g') (hm : Machine.Alike L { m with store := store } m')
    (hv : v.Alike L v') (hP : Throughout g ws P ⟨m, .native program context, ws⟩)
    (hP' : Throughout g' ws' P' (nest g' m' (w' :: ws') v' env))
    (hthen : ∀ L' a b m₁ m₁', L ≤ L' → a.Alike L' b → m₁.Alike L' m₁' →
      Throughout g ws P ⟨m₁, .native (next a) context, ws⟩ → P' m₁'.store →
      Throughout g' ws' P' (deliver g' m₁' ws' w' (.ok b)) →
      Corresponds L' g g' ws ws' ⟨m₁, .native (next a) context, ws⟩ (deliver g' m₁' ws' w' (.ok b))) :
    Corresponds L g g' ws ws' ⟨m, .native program context, ws⟩ (nest g' m' (w' :: ws') v' env) := by
  have hasked : Proceeds g ws ⟨m, .native program context, ws⟩ (nest g { m with store := store }
      (.native (resumed next) context held :: ws) v env) :=
    proceeds_asking hask
  refine .of_proceeds hasked (.refl _) ?_
  refine corresponds_nest hmoored hK hg hm hv (hP.of_proceeds hasked) hP' ?_
  intro L' a b m₁ m₁' hle hresult hm₁ hfin hfin'
  cases hresult with
  | @ok a b hvalue =>
    have hnow := hP'.of_proceeds (Proceeds.above [w'] hfin'.proceeds
      (within_nest (balanced_entry (w' :: ws') m') v' env))
    have hdeliver : Proceeds g' ws' ⟨m₁', .answer (.ok b), w' :: ws'⟩
        (deliver g' m₁' ws' w' (.ok b)) :=
      .next not_answersTo_cons (.refl _)
    refine .of_proceeds (.next not_answersTo_cons (.refl _)) hdeliver ?_
    exact hthen L' a b m₁ m₁' hle hvalue hm₁ (hP.of_proceeds (proceeds_eval hask hfin)) hnow.now
      (hnow.of_proceeds hdeliver)
  | @error e herror =>
    have herror' : Finishes g' ws' ⟨m₁', .answer (.error e), w' :: ws'⟩ (.error e) m₁' := by
      apply Finishes.later not_answersTo_cons
      simp only [step, hfail]
      exact .now m₁' (.error e)
    exact .finish (le_refl L') (finishes_resumed_error m₁) herror' (.error herror) hm₁

theorem corresponds_tail {m m' : Machine} {v v' : Value} {env : FrameId} (hK : K.strict)
    (hg : g.Akin K g') (hm : m.Alike L m') (hv : v.Alike L v')
    (hcaller : (g.bearing ws).caller.Alike L (g'.bearing ws').caller) :
    Corresponds L g g' ws ws' ⟨m, .eval v env, ws⟩ ⟨m', .eval v' env, ws'⟩ := by
  have hakin : (g.bearing ws).Akin K (g'.bearing ws') := ⟨hg.library, hg.maxDepth⟩
  have hstates : State.Alike L ⟨m, .eval v env, []⟩ ⟨m', .eval v' env, []⟩ :=
    ⟨hm, .eval hv env, .nil⟩
  have hmoored : HoldAlike K (fun _ => False) (fun _ => False) (fun _ => True) (fun _ => True)
      (g.bearing ws).caller (g'.bearing ws').caller :=
    fun _ _ _ _ _ _ => moored_of_eq hcaller.refs_eq
  exact (hstates.corresponds hmoored hK hakin (balanced_entry [] m) (fun _ _ => trivial)
    fun _ _ => trivial).onto

end MiniScheme.State
