import MiniScheme.Proofs.Machine.Alongside
/-! # Three ways to apply a procedure

A procedure is applied by an application that names it, by native code that calls it, and by
`apply`. The first evaluates the last expression of a closure's body in place of the application,
the others nest it. Without a limit on the depth nothing else comes of the difference than what the
work that waits holds on to.
-/
namespace MiniScheme

namespace State

variable {library : Library} {caller caller' : Held} {ws ws' : List Waiting} {m m' : Machine}

theorem level_of_sameEffects (h : m.SameEffects m') (ws ws' : List Waiting) :
    Level ⟨ws, m.calls.values.toList, m.depth⟩ ⟨ws', m'.calls.values.toList, m'.depth⟩ ws ws'
      m m' :=
  ⟨h, .entry⟩

private theorem matches_unlimited (library : Library) (caller caller' : Held) (f g : Footing) :
    Setting.Matches f g ⟨library, none, caller⟩ ⟨library, none, caller'⟩ :=
  ⟨rfl, rfl, .inl rfl⟩

theorem finishes_nested (setting : Setting) (ws : List Waiting) (m : Machine) (expr : Value)
    (env : FrameId) (result : Except EvalError Value) :
    Finishes setting ws ⟨m, .answer result, .nested expr env :: ws⟩ result
      { m with depth := m.depth - 1 } :=
  .later not_answersTo_cons (.now _ result)

theorem concur_last (h : m.SameEffects m') (last : Value) (frame : FrameId) :
    Concur ⟨library, none, caller⟩ ⟨library, none, caller'⟩ ws ws' ⟨m, .eval last frame, ws⟩
      (nest ⟨library, none, caller'⟩ m' ws' last frame) := by
  have hbegun : Concur ⟨library, none, caller⟩ ⟨library, none, caller'⟩ ws
      (.nested last frame :: ws') ⟨m, .eval last frame, ws⟩
      (nest.enterNested ws' last frame m') := by
    have heffects : m.SameEffects { m' with
        depth := m'.depth + 1, counters := m'.counters.map (·.recordDepth (m'.depth + 1)) } :=
      ⟨h.store, h.symbols, h.output⟩
    have halong : Alongside _ _ ⟨m, .eval last frame, ws⟩ (nest.enterNested ws' last frame m') :=
      ⟨level_of_sameEffects heffects ws (.nested last frame :: ws'), .eval last frame⟩
    exact halong.concur (matches_unlimited library caller caller' _ _)
  apply Concur.rebase [] [.nested last frame] hbegun
    (balanced_entry ws m) (balanced_entry _ _)
  intro result m₁ m₂ heffects _ _
  apply Concur.finish (.now m₁ result) (finishes_nested _ ws' m₂ last frame result)
  exact ⟨heffects.store, heffects.symbols, heffects.output⟩

/-- A body whose last expression is evaluated in place or nested. -/
theorem concur_nextBody (h : m.SameEffects m') (frame : FrameId) (context context' : Held)
    (inPlace inPlace' : Bool) (body : List Value) :
    Concur ⟨library, none, caller⟩ ⟨library, none, caller'⟩ ws ws'
      (nextBody ⟨library, none, caller⟩ m ws frame context inPlace body)
      (nextBody ⟨library, none, caller'⟩ m' ws' frame context' inPlace' body) := by
  induction body generalizing m m' with
  | nil => exact .finish (.now m _) (.now m' _) h
  | cons expr rest ih =>
    cases rest with
    | nil =>
      have hmatches := matches_unlimited library caller caller'
        ⟨ws, m.calls.values.toList, m.depth⟩ ⟨ws', m'.calls.values.toList, m'.depth⟩
      cases inPlace <;> cases inPlace'
      · exact ((level_of_sameEffects h ws ws').nest hmatches expr frame).concur hmatches
      · exact (concur_last h.symm expr frame).symm
      · exact concur_last h expr frame
      · have halong : Alongside _ _ ⟨m, .eval expr frame, ws⟩ ⟨m', .eval expr frame, ws'⟩ :=
          ⟨level_of_sameEffects h ws ws', .eval expr frame⟩
        exact halong.concur hmatches
    | cons next rest =>
      have hlevel := level_of_sameEffects h (.body (next :: rest) frame context inPlace :: ws)
        (.body (next :: rest) frame context' inPlace' :: ws')
      have hmatches := matches_unlimited library caller caller'
        ⟨.body (next :: rest) frame context inPlace :: ws, m.calls.values.toList, m.depth⟩
        ⟨.body (next :: rest) frame context' inPlace' :: ws', m'.calls.values.toList, m'.depth⟩
      have hfirst := (hlevel.nest hmatches expr frame).concur hmatches
      apply Concur.rebase [_] [_] hfirst
        (within_nest (balanced_entry _ m) expr frame) (within_nest (balanced_entry _ m') expr frame)
      intro result m₁ m₂ heffects _ _
      cases result with
      | ok v =>
        exact .of_proceeds (.next not_answersTo_cons (.refl _)) (.next not_answersTo_cons (.refl _))
          (ih heffects)
      | error e =>
        exact .finish (.later not_answersTo_cons (.now m₁ _)) (.later not_answersTo_cons (.now m₂ _))
          heffects

private theorem concur_applyClosure (h : m.SameEffects m') (c : ClosureId) (args : List Value)
    (context context' : Held) (inPlace inPlace' : Bool) :
    Concur ⟨library, none, caller⟩ ⟨library, none, caller'⟩ ws ws'
      (applyClosure ⟨library, none, caller⟩ m ws c args context inPlace)
      (applyClosure ⟨library, none, caller'⟩ m' ws' c args context' inPlace') := by
  obtain ⟨hstore, hsymbols, houtput⟩ := h
  unfold applyClosure Machine.bindArguments Machine.count
  simp only [hstore]
  cases m.store.bind (m.store.closure c) args with
  | mk answer store =>
    cases answer with
    | error e => exact .finish (.now _ _) (.now _ _) ⟨rfl, hsymbols, houtput⟩
    | ok frame =>
      dsimp only
      split
      · exact .finish (.now _ _) (.now _ _) ⟨rfl, hsymbols, houtput⟩
      · apply concur_nextBody
        exact ⟨rfl, hsymbols, houtput⟩

private theorem concur_applyBuiltin (h : m.SameEffects m') (b : Builtin) (args : List Value)
    (context context' : Held) :
    Concur ⟨library, none, caller⟩ ⟨library, none, caller'⟩ ws ws'
      (applyBuiltin ⟨library, none, caller⟩ m ws b args context)
      (applyBuiltin ⟨library, none, caller'⟩ m' ws' b args context') := by
  have hmatches := matches_unlimited library caller caller'
    ⟨ws, m.calls.values.toList, m.depth⟩ ⟨ws', m'.calls.values.toList, m'.depth⟩
  exact ((level_of_sameEffects h ws ws').applyBuiltin hmatches b args context context').concur
    hmatches

/-- A native procedure or a closure is given its arguments, on behalf of work that holds on to
`context`; the last expression of a closure's body replaces the call if `inPlace`. -/
def enter (setting : Setting) (m : Machine) (ws : List Waiting) (procedure : Value)
    (args : List Value) (context : Held) (inPlace : Bool) : State :=
  match procedure with
  | .builtin b => applyBuiltin setting m ws b args context
  | .closure c => applyClosure setting m ws c args context inPlace
  | other => fail m ws (m.store.notAProcedure other)

private theorem call_eq_enter (setting : Setting) (m : Machine) (ws : List Waiting)
    (procedure : Value) (args : List Value) :
    call setting m ws procedure args = enter setting m ws procedure args {} false := by
  cases procedure <;> rfl

private theorem concur_enter (h : m.SameEffects m') (procedure : Value) (args : List Value)
    (context context' : Held) (inPlace inPlace' : Bool) :
    Concur ⟨library, none, caller⟩ ⟨library, none, caller'⟩ ws ws'
      (enter ⟨library, none, caller⟩ m ws procedure args context inPlace)
      (enter ⟨library, none, caller'⟩ m' ws' procedure args context' inPlace') := by
  cases procedure with
  | builtin b => exact concur_applyBuiltin h b args context context'
  | closure c => exact concur_applyClosure h c args context context' inPlace inPlace'
  | _ =>
    unfold enter
    rw [h.store]
    exact .finish (.now m _) (.now m' _) h

private theorem within_enter {setting : Setting} (procedure : Value) (args : List Value)
    (context : Held) (inPlace : Bool) :
    Within ws m.calls.values.toList m.depth
      (enter setting m ws procedure args context inPlace) := by
  cases procedure with
  | builtin b => exact within_applyBuiltin (balanced_entry ws m) b args context
  | closure c => exact within_applyClosure (balanced_entry ws m) c args context inPlace
  | _ => exact balanced_entry ws m

/-- An application, evaluated for `ws`, whose operator comes to `head` and leaves machine `m`, and
whose operands are the values `args`, quoted. -/
def AppliesQuoted (setting : Setting) (ws : List Waiting) (s : State) (head : Value) (m : Machine)
    (args : List Value) : Prop :=
  ∃ (before : Machine) (c : CellId) (env : FrameId) (exprs : List Value),
    s = ⟨before, .eval (.pair c) env, ws⟩ ∧
    Finishes setting (.operator (siteOf before.store c env) :: ws)
      (nest setting (before.count Counters.countExpression)
        (.operator (siteOf before.store c env) :: ws) (before.store.first c) env) (.ok head) m ∧
    m.store.Lists (before.store.rest c) exprs ∧
    List.Forall₂ (Quotes setting.library m.store env) exprs args

theorem AppliesQuoted.proceeds {s : State} {head : Value} {args : List Value}
    (h : AppliesQuoted ⟨library, none, caller⟩ ws s head m args) (hhead : head.isProcedure = true) :
    ∃ m' context, m.SameEffects m' ∧
      Proceeds ⟨library, none, caller⟩ ws s
        (enter ⟨library, none, caller⟩ m' ws head args context true) := by
  obtain ⟨before, c, env, exprs, rfl, hoperator, hlists, hquotes⟩ := h
  have hsettles : List.Forall₂ (Settles ⟨library, none, caller⟩ m.store m.depth env) exprs args :=
    hquotes.imp fun _ _ hquote => (hquote.yields (Setting.allows_of_unlimited rfl _)).settles
      (Setting.allows_of_unlimited rfl _)
  have hbegun := proceeds_operator hoperator
  cases head with
  | builtin b =>
    obtain ⟨m', heffects, -, -, hoperands⟩ := proceeds_nextOperand ws b
      (siteOf before.store c env) hsettles hlists rfl rfl
      (List.append_nil m.calls.values.toList).symm
    simp only [Array.length_toList, List.length_nil, List.nil_append] at hoperands
    exact ⟨m', _, heffects, hbegun.trans hoperands⟩
  | closure p =>
    obtain ⟨m', heffects, -, hoperands⟩ := proceeds_nextArgument ws p
      (siteOf before.store c env) [] hsettles hlists rfl rfl
    exact ⟨m', _, heffects, hbegun.trans hoperands⟩
  | _ => simp [Value.isProcedure] at hhead

/-- Native code that answers what it is answered. -/
def handOn (answer : Except EvalError Value) : Native Outcome := fun store =>
  (Interaction.ofExcept answer store).bind fun v store => .done (.value v) store

private theorem finishes_handOn (setting : Setting) (ws : List Waiting) (m : Machine)
    (context : Held) (result : Except EvalError Value) :
    Finishes setting ws ⟨m, .answer result, .native handOn context {} :: ws⟩ result m := by
  apply Finishes.later not_answersTo_cons
  cases result with
  | ok v => exact finishes_native_value rfl
  | error e => exact finishes_native_fail rfl

end State

open Procedures (listArgument notAList)

namespace State

variable {b : Builtin} {as bs : List Value} {p l : Value}

theorem apply_cons_append (p : Value) (as : List Value) (l : Value) (store : Store) :
    Procedures.apply (p :: (as ++ [l])) store =
      (Interaction.ofExcept (listArgument store "apply" l) store).bind
        (fun spread => Native.call p (as ++ spread) {}) := by
  have hne : ∃ first more, as ++ [l] = first :: more := by
    cases as with
    | nil => exact ⟨l, [], rfl⟩
    | cons a as => exact ⟨a, as ++ [l], rfl⟩
  obtain ⟨first, more, hmore⟩ := hne
  rw [hmore]
  simp only [Procedures.apply, bind, Native.read, Native.ofExcept, Interaction.bind]
  rw [← hmore]
  simp

private theorem accepts_apply (as : List Value) (p l : Value) :
    (Arity.atLeast 2).accepts (p :: (as ++ [l])).length = true := by
  simp [Arity.accepts]

theorem apply_of_lists (caller : Held) (ws : List Waiting) (p : Value) (as : List Value)
    (happly : library.procedure b = Procedures.apply)
    (harity : b.arity = .atLeast 2)
    (hlist : listArgument m.store "apply" l = .ok bs) (context : Held) :
    ∃ context', Proceeds ⟨library, none, caller⟩ ws
      (applyBuiltin ⟨library, none, caller⟩ m ws b (p :: (as ++ [l])) context)
      (call ⟨library, none, caller⟩ (m.count Counters.countBuiltinCall)
        (.native handOn context' {} :: ws) p (as ++ bs)) := by
  have hchecked : b.arity.check b.name (p :: (as ++ [l])).length = .ok () := by
    rw [Arity.check, harity, accepts_apply, if_pos rfl]
  refine ⟨context.append ⟨p :: (as ++ [l]), []⟩, ?_⟩
  simp only [applyBuiltin, hchecked, happly]
  apply Proceeds.next not_answersTo_native
  simp only [step, runNative, Machine.count, bind, apply_cons_append, hlist, Interaction.ofExcept,
    Interaction.bind, Native.call]
  exact .refl _

theorem apply_of_improper (happly : library.procedure b = Procedures.apply)
    (harity : b.arity = .atLeast 2)
    (hlist : listArgument m.store "apply" l = .error (notAList "apply" l)) (context : Held) :
    (applyBuiltin ⟨library, none, caller⟩ m ws b (p :: (as ++ [l])) context).step
        ⟨library, none, caller⟩ =
      fail (m.count Counters.countBuiltinCall) ws (notAList "apply" l) := by
  have hchecked : b.arity.check b.name (p :: (as ++ [l])).length = .ok () := by
    rw [Arity.check, harity, accepts_apply, if_pos rfl]
  simp only [applyBuiltin, hchecked, happly]
  simp only [step, runNative, Machine.count, bind, apply_cons_append, hlist, Interaction.ofExcept,
    Interaction.bind]

/-- `apply` comes to what giving the arguments to the procedure comes to. -/
theorem concur_apply (happly : library.procedure b = Procedures.apply)
    (harity : b.arity = .atLeast 2) (hlist : listArgument m.store "apply" l = .ok bs)
    (h : m.SameEffects m') (context context' : Held) (inPlace : Bool) :
    Concur ⟨library, none, caller⟩ ⟨library, none, caller'⟩ ws ws'
      (applyBuiltin ⟨library, none, caller⟩ m ws b (p :: (as ++ [l])) context)
      (enter ⟨library, none, caller'⟩ m' ws' p (as ++ bs) context' inPlace) := by
  obtain ⟨held, hproceeds⟩ := apply_of_lists caller ws p as happly harity hlist context
  rw [call_eq_enter] at hproceeds
  refine .of_proceeds hproceeds (.refl _) ?_
  have hcounted : (m.count Counters.countBuiltinCall).SameEffects m' :=
    ⟨h.store, h.symbols, h.output⟩
  have hcalled : Concur ⟨library, none, caller⟩ ⟨library, none, caller'⟩
      (.native handOn held {} :: ws) ws' _ _ :=
    concur_enter hcounted p (as ++ bs) {} context' false inPlace
  apply Concur.rebase [.native handOn held {}] [] hcalled
    (within_enter p _ _ _) (within_enter p _ _ _)
  intro result m₁ m₂ heffects _ _
  exact .finish (finishes_handOn _ ws m₁ held result) (.now m₂ result) heffects

end State

open State

/-- Applying a procedure to `as` and the elements of a list `l`: by `apply`, by a call of native
code, and by an application whose operands are these values quoted, each begun on a machine with the
same store, symbols and output. They finish with one result and the same effects, or none of them
finishes, or the first thing in which two of them differ is whether somebody else holds a closure
that a definition is to name. If `l` is no proper list `apply` has failed one step after its
arguments were there, with nothing done. -/
theorem apply_agrees_with_application {library : Library} {b : Builtin} {p l : Value}
    {as : List Value} (caller₁ caller₂ caller₃ : Held) (ws₁ ws₂ ws₃ : List Waiting)
    {m₁ m₂ m₃ : Machine} {s : State} (happly : library.procedure b = Procedures.apply)
    (harity : b.arity = .atLeast 2) (hp : p.isProcedure = true) (hl : m₂.store.Holds l)
    (h₁ : m₂.SameEffects m₁) (h₃ : m₂.SameEffects m₃)
    (hs : AppliesQuoted ⟨library, none, caller₁⟩ ws₁ s (.builtin b) m₁ (p :: (as ++ [l]))) :
    (∀ bs, m₂.store.Lists l bs →
      let called := call ⟨library, none, caller₂⟩ m₂ ws₂ p (as ++ bs)
      Concur ⟨library, none, caller₁⟩ ⟨library, none, caller₂⟩ ws₁ ws₂ s called ∧
      ∀ t, AppliesQuoted ⟨library, none, caller₃⟩ ws₃ t p m₃ (as ++ bs) →
        Concur ⟨library, none, caller₃⟩ ⟨library, none, caller₂⟩ ws₃ ws₂ t called ∧
        Concur ⟨library, none, caller₁⟩ ⟨library, none, caller₃⟩ ws₁ ws₃ s t) ∧
    (m₂.store.EndsImproperly l ∨ m₂.store.GoesRound l →
      ∃ m m' context,
        let applied := applyBuiltin ⟨library, none, caller₁⟩ m ws₁ b (p :: (as ++ [l])) context
        Proceeds ⟨library, none, caller₁⟩ ws₁ s applied ∧
        applied.step ⟨library, none, caller₁⟩ = fail m' ws₁ (notAList "apply" l) ∧
        m₁.SameEffects m ∧ m₁.SameEffects m') := by
  obtain ⟨m, context, heffects, hbegun⟩ := hs.proceeds rfl
  have hstore : m.store = m₂.store := heffects.store.trans h₁.store
  constructor
  · intro bs hbs
    have hlist : listArgument m.store "apply" l = .ok bs := by
      rw [hstore]
      exact Store.listArgument_of_lists hl hbs "apply"
    refine ⟨?_, ?_⟩
    · rw [call_eq_enter]
      refine .of_proceeds hbegun (.refl _) ?_
      exact concur_apply happly harity hlist (heffects.symm.trans h₁.symm) context {} false
    · intro t ht
      obtain ⟨m', context', heffects', hbegun'⟩ := ht.proceeds hp
      constructor
      · rw [call_eq_enter]
        refine .of_proceeds hbegun' (.refl _) ?_
        exact concur_enter (heffects'.symm.trans h₃.symm) p _ context' {} true false
      · refine .of_proceeds hbegun hbegun' ?_
        exact concur_apply happly harity hlist
          ((heffects.symm.trans h₁.symm).trans (h₃.trans heffects')) context context' true
  · intro himproper
    refine ⟨m, _, context, hbegun, apply_of_improper happly harity ?_ context, heffects, ?_⟩
    · rw [hstore]
      exact Store.listArgument_of_improper hl himproper "apply"
    · exact ⟨heffects.store, heffects.symbols, heffects.output⟩

namespace Releasing

def library : Library where
  procedures := #[Procedures.apply]
  forms := #[Forms.quote, Forms.define, Forms.assign, Forms.letForm]

def applyProcedure : Builtin := ⟨0, "apply", .atLeast 2⟩

/-- Closure 0 is `(lambda (x) (define y (let ((t x)) (set! x 0) t)))`: it lets go of its argument
before it defines `y` to be it. Closure 1 has no name. From pair 13 on there is `(apply 'p '(q))`,
and from pair 21 on `(p 'q)`, for these closures `p` and `q`. -/
def machine : Machine where
  store :=
    { cells := #[
        ⟨.symbol ⟨1, "define"⟩, .pair ⟨1⟩⟩, ⟨.symbol ⟨5, "y"⟩, .pair ⟨2⟩⟩, ⟨.pair ⟨3⟩, .nil⟩,
        ⟨.symbol ⟨3, "let"⟩, .pair ⟨4⟩⟩, ⟨.pair ⟨5⟩, .pair ⟨8⟩⟩, ⟨.pair ⟨6⟩, .nil⟩,
        ⟨.symbol ⟨6, "t"⟩, .pair ⟨7⟩⟩, ⟨.symbol ⟨4, "x"⟩, .nil⟩, ⟨.pair ⟨9⟩, .pair ⟨12⟩⟩,
        ⟨.symbol ⟨2, "set!"⟩, .pair ⟨10⟩⟩, ⟨.symbol ⟨4, "x"⟩, .pair ⟨11⟩⟩, ⟨.int 0, .nil⟩,
        ⟨.symbol ⟨6, "t"⟩, .nil⟩,
        ⟨.builtin applyProcedure, .pair ⟨14⟩⟩, ⟨.pair ⟨16⟩, .pair ⟨15⟩⟩, ⟨.pair ⟨18⟩, .nil⟩,
        ⟨.symbol ⟨0, "quote"⟩, .pair ⟨17⟩⟩, ⟨.closure ⟨0⟩, .nil⟩,
        ⟨.symbol ⟨0, "quote"⟩, .pair ⟨19⟩⟩, ⟨.pair ⟨20⟩, .nil⟩, ⟨.closure ⟨1⟩, .nil⟩,
        ⟨.closure ⟨0⟩, .pair ⟨22⟩⟩, ⟨.pair ⟨23⟩, .nil⟩,
        ⟨.symbol ⟨0, "quote"⟩, .pair ⟨24⟩⟩, ⟨.closure ⟨1⟩, .nil⟩]
      frames := #[⟨[(⟨0, "quote"⟩, .form ⟨0, "quote"⟩), (⟨1, "define"⟩, .form ⟨1, "define"⟩),
        (⟨2, "set!"⟩, .form ⟨2, "set!"⟩), (⟨3, "let"⟩, .form ⟨3, "let"⟩)], none⟩]
      closures := #[⟨none, .fixed [⟨4, "x"⟩], [.pair ⟨0⟩], ⟨0⟩⟩, ⟨none, .fixed [], [.int 1], ⟨0⟩⟩] }
  symbols := SymbolTable.empty
  calls := CallStack.empty
  depth := 0
  counters := none
  output := .silent

def evaluating (c : Nat) : State := ⟨machine, .eval (.pair ⟨c⟩) ⟨0⟩, []⟩

private theorem quotes {c d : Nat} {v : Value}
    (hfirst : machine.store.first ⟨c⟩ = .symbol ⟨0, "quote"⟩)
    (hrest : machine.store.rest ⟨c⟩ = .pair ⟨d⟩) (hdatum : machine.store.first ⟨d⟩ = v)
    (hnil : machine.store.rest ⟨d⟩ = .nil) :
    Quotes library machine.store ⟨0⟩ (.pair ⟨c⟩) v :=
  ⟨⟨c⟩, _, ⟨0, "quote"⟩, rfl, hfirst, rfl, rfl,
    Store.lists_cons_iff.mpr ⟨⟨d⟩, hrest, hdatum, Store.lists_nil_iff.mpr hnil⟩⟩

private theorem appliesQuoted_apply :
    AppliesQuoted ⟨library, none, {}⟩ [] (evaluating 13) (.builtin applyProcedure) machine
      (.closure ⟨0⟩ :: ([] ++ [.pair ⟨20⟩])) := by
  refine ⟨machine, ⟨13⟩, ⟨0⟩, [.pair ⟨16⟩, .pair ⟨18⟩], rfl, ?_, ?_, ?_⟩
  · exact .later not_answersTo_eval (.later not_answersTo_cons (.now _ _))
  · exact Store.lists_cons_iff.mpr ⟨⟨14⟩, rfl, rfl,
      Store.lists_cons_iff.mpr ⟨⟨15⟩, rfl, rfl, Store.lists_nil_iff.mpr rfl⟩⟩
  · exact .cons (quotes rfl rfl rfl rfl) (.cons (quotes rfl rfl rfl rfl) .nil)

private theorem appliesQuoted_closure :
    AppliesQuoted ⟨library, none, {}⟩ [] (evaluating 21) (.closure ⟨0⟩) machine
      ([] ++ [.closure ⟨1⟩]) := by
  refine ⟨machine, ⟨21⟩, ⟨0⟩, [.pair ⟨23⟩], rfl, ?_, ?_, ?_⟩
  · exact .later not_answersTo_eval (.later not_answersTo_cons (.now _ _))
  · exact Store.lists_cons_iff.mpr ⟨⟨22⟩, rfl, rfl, Store.lists_nil_iff.mpr rfl⟩
  · exact .cons (quotes rfl rfl rfl rfl) .nil

private theorem lists_argument : machine.store.Lists (.pair ⟨20⟩) [.closure ⟨1⟩] :=
  Store.lists_cons_iff.mpr ⟨⟨20⟩, rfl, rfl, Store.lists_nil_iff.mpr rfl⟩

end Releasing

open Releasing in
/-- The hypotheses hold of `(apply 'p '(q))` and `(p 'q)`. -/
theorem apply_agrees_with_releasing_application :
    Concur ⟨library, none, {}⟩ ⟨library, none, {}⟩ [] [] (evaluating 13) (evaluating 21) := by
  have hintact : machine.store.Intact := by decide
  have hl : machine.store.Holds (.pair ⟨20⟩) := hintact.holds (by decide)
  have hagrees := apply_agrees_with_application {} {} {} [] [] [] rfl rfl rfl hl (.refl machine)
    (.refl machine) appliesQuoted_apply
  exact ((hagrees.1 _ lists_argument).2 _ appliesQuoted_closure).2

open Releasing in
/-- A native call of `p` leaves nobody else that holds `q`, which is then named; after
`(apply 'p '(q))`, where the list is still held, it has no name. -/
theorem call_names_what_apply_does_not :
    AppliesQuoted ⟨library, none, {}⟩ [] (evaluating 13) (.builtin applyProcedure) machine
      [.closure ⟨0⟩, .pair ⟨20⟩] ∧
    machine.store.Lists (.pair ⟨20⟩) [.closure ⟨1⟩] ∧
    ∃ m m',
      Finishes ⟨library, none, {}⟩ [] (evaluating 13) (.ok (.symbol ⟨5, "y"⟩)) m ∧
      Finishes ⟨library, none, {}⟩ []
        (call ⟨library, none, {}⟩ machine [] (.closure ⟨0⟩) [.closure ⟨1⟩])
        (.ok (.symbol ⟨5, "y"⟩)) m' ∧
      (m.store.closure ⟨1⟩).name = none ∧ (m'.store.closure ⟨1⟩).name = some "y" := by
  have hname (s : State) (name : Option String)
      (hrun : (s.run ⟨library, none, {}⟩ 100).map
        (fun finished => (finished.1, (finished.2.store.closure ⟨1⟩).name)) =
          some (.ok (.symbol ⟨5, "y"⟩), name)) :
      ∃ m, Finishes ⟨library, none, {}⟩ [] s (.ok (.symbol ⟨5, "y"⟩)) m ∧
        (m.store.closure ⟨1⟩).name = name :=
    exists_finishes (fun m => (m.store.closure ⟨1⟩).name) 100 hrun
  obtain ⟨m, hfin, hnone⟩ := hname (evaluating 13) none (by decide +kernel)
  obtain ⟨m', hfin', hsome⟩ := hname
    (call ⟨library, none, {}⟩ machine [] (.closure ⟨0⟩) [.closure ⟨1⟩]) (some "y")
    (by decide +kernel)
  exact ⟨appliesQuoted_apply, lists_argument, m, m', hfin, hfin', hnone, hsome⟩

end MiniScheme
