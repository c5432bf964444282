import MiniScheme.Proofs.Machine.FormEvaluation
import MiniScheme.Proofs.Machine.Underneath
import MiniScheme.Proofs.Native.TailPosition
import MiniScheme.Proofs.Store.Holders
/-! # Two ways to define a procedure

`(define (f . formals) . body)` makes a closure that has its name from the start. `(define f (lambda
formals . body))` has an anonymous closure made by a nested evaluation and names it afterwards, which
it does to a closure that nobody else holds. A closure that has just been made is such a closure, so
both come to the same.
-/
namespace MiniScheme

namespace Store

variable {s : Store}

/-- The reference is to a closure that is not there. -/
def lacks (s : Store) : Ref → Bool
  | .closure c => s.closures.size ≤ c.index
  | _ => false

private theorem lacks_new (s : Store) : s.lacks (.closure ⟨s.closures.size⟩) = true := by
  simp [lacks]

/-- The objects of a store refer to no closure that is not there. -/
def Complete (s : Store) : Prop := ∀ r ∈ s.objects, ∀ t ∈ s.mentions r, s.lacks t = false

instance (s : Store) : Decidable s.Complete := inferInstanceAs (Decidable (∀ r ∈ _, ∀ t ∈ _, _))

private theorem Complete.of_mentions (h : s.Complete) {r t : Ref} (ht : t ∈ s.mentions r) :
    s.lacks t = false := by
  by_cases hr : s.has r = true
  · exact h r (mem_objects.mpr hr) t ht
  · -- An object that is not there has no content.
    cases r with
    | cell c =>
      have hc : ¬ c.index < s.cells.size := by simpa [Store.has] using hr
      simp [mentions, first, rest, cell, Array.getD, hc, Value.ref?] at ht
    | frame e =>
      have he : ¬ e.index < s.frames.size := by simpa [Store.has] using hr
      simp [mentions, frame, Array.getD, he] at ht
    | closure c =>
      have hc : ¬ c.index < s.closures.size := by simpa [Store.has] using hr
      obtain rfl : t = .frame ⟨0⟩ := by simpa [mentions, closure, Array.getD, hc] using ht
      rfl

private theorem Complete.lacks_of_lists (h : s.Complete) {v item : Value} {items : List Value}
    (hlists : s.Lists v items) (hitem : item ∈ items) {t : Ref} (ht : item.ref? = some t) :
    s.lacks t = false := by
  induction items generalizing v with
  | nil => simp at hitem
  | cons first items ih =>
    obtain ⟨c, rfl, rfl, hbehind⟩ := lists_cons_iff.mp hlists
    rcases List.mem_cons.mp hitem with rfl | hitem
    · refine h.of_mentions (r := .cell c) ?_
      exact List.mem_filterMap.mpr ⟨_, by simp, ht⟩
    · exact ih hbehind hitem

theorem not_mem_refs_newClosure (h : s.Complete) {c : Closure}
    (hbody : ∀ v ∈ c.body, ∀ t, v.ref? = some t → s.lacks t = false) (r : Ref) :
    .closure (s.newClosure c).1 ∉ (s.newClosure c).2.refs r := by
  intro hr
  have hmentions := (List.mem_filter.mp hr).1
  have hold (hr : .closure ⟨s.closures.size⟩ ∈ s.mentions r) : False := by
    simpa [lacks_new] using h.of_mentions hr
  cases r with
  | cell d => exact hold hmentions
  | frame e => exact hold hmentions
  | closure d =>
    by_cases hd : d.index = s.closures.size
    · have hnew : (s.newClosure c).2.closure d = c := by
        simp [newClosure, closure, Array.getD_eq_getD_getElem?, hd]
      simp only [mentions, hnew, List.mem_cons, reduceCtorEq, false_or, List.mem_filterMap]
        at hmentions
      obtain ⟨v, hv, hclosure⟩ := hmentions
      simpa [newClosure, lacks_new] using hbody v hv _ hclosure
    · have hsame : (s.newClosure c).2.closure d = s.closure d := by
        simp only [newClosure, closure, Array.getD_eq_getD_getElem?, Array.getElem?_push, if_neg hd]
      refine hold ?_
      rw [mentions, hsame] at hmentions
      exact hmentions

/-- Nobody else holds a closure that has just been made. -/
theorem isSoleReference_newClosure (h : s.Complete) {c : Closure}
    (hbody : ∀ v ∈ c.body, ∀ t, v.ref? = some t → s.lacks t = false) {roots : List Ref}
    (hroots : ∀ t ∈ roots, s.lacks t = false) :
    (s.newClosure c).2.isSoleReference (s.newClosure c).1 roots = true := by
  refine isSoleReference_iff.mpr ⟨by simp [newClosure, Store.has], fun hmem => ?_, ?_⟩
  · simpa [newClosure, lacks_new] using hroots _ hmem
  · intro r _ hr
    exact absurd hr (not_mem_refs_newClosure h hbody r)

private theorem nameClosure_newClosure (s : Store) (formals : Formals) (body : List Value)
    (env : FrameId) (name : String) :
    (s.newClosure ⟨none, formals, body, env⟩).2.nameClosure ⟨s.closures.size⟩ name =
      (s.newClosure ⟨some name, formals, body, env⟩).2 := by
  have hclosures : (s.closures.push ⟨none, formals, body, env⟩).modify s.closures.size
      (fun c => { c with name := some name }) = s.closures.push ⟨some name, formals, body, env⟩ := by
    apply Array.ext_getElem?
    intro i
    by_cases hi : s.closures.size = i
    · simp [Array.getElem_modify, ← hi]
    · simp [Array.getElem?_modify, Array.getElem?_push, hi, Ne.symm hi]
  simp only [newClosure, nameClosure, hclosures]

theorem spineWithin_eq (s : Store) (steps : Nat) (reversed : List Value) (v : Value) :
    s.spineWithin steps reversed v =
      match s.spineWithin steps [] v with
      | .proper items => .proper (reversed.reverse ++ items)
      | .improper items tail => .improper (reversed.reverse ++ items) tail
      | .circular => .circular := by
  induction steps generalizing reversed v with
  | zero => rfl
  | succ steps ih =>
    cases v with
    | pair c =>
      rw [spineWithin, spineWithin, ih (s.first c :: reversed), ih [s.first c]]
      cases s.spineWithin steps [] (s.rest c) <;> simp
    | _ => simp [spineWithin]

theorem spine_cases_of_rest {c d : CellId} (h : s.rest c = s.rest d) :
    (∃ items, s.spine (.pair c) = .proper (s.first c :: items) ∧
        s.spine (.pair d) = .proper (s.first d :: items)) ∨
      (∃ items items' tail, s.spine (.pair c) = .improper items tail ∧
        s.spine (.pair d) = .improper items' tail) ∨
      s.spine (.pair c) = .circular ∧ s.spine (.pair d) = .circular := by
  have hpair (c : CellId) : s.spine (.pair c) =
      s.spineWithin s.cells.size [s.first c] (s.rest c) := rfl
  rw [hpair, hpair, spineWithin_eq s _ [s.first c], spineWithin_eq s _ [s.first d], h]
  cases s.spineWithin s.cells.size [] (s.rest d) with
  | proper items => exact .inl ⟨items, rfl, rfl⟩
  | improper items tail => exact .inr (.inl ⟨_, _, tail, rfl, rfl⟩)
  | circular => exact .inr (.inr ⟨rfl, rfl⟩)

end Store

namespace Forms

variable {store : Store} {operands : Value}

/-- What is wrong with parameters does not depend on the form. -/
theorem formalsWithin_outcome (store : Store) (steps : Nat) (reversed : List Symbol) (v : Value) :
    (∃ parsed, ∀ form, formalsWithin store form steps reversed v = .ok parsed) ∨
      ∃ reason, ∀ form,
        formalsWithin store form steps reversed v = .error (.badSyntax form reason) := by
  induction steps generalizing reversed v with
  | zero => exact .inr ⟨_, fun form => rfl⟩
  | succ steps ih =>
    cases v with
    | nil => exact .inl ⟨_, fun form => rfl⟩
    | symbol x =>
      simp only [formalsWithin]
      split
      · exact .inr ⟨_, fun form => rfl⟩
      · exact .inl ⟨_, fun form => rfl⟩
    | pair c =>
      simp only [formalsWithin]
      cases store.first c with
      | symbol x =>
        dsimp only
        split
        · exact .inr ⟨_, fun form => rfl⟩
        · exact ih _ _
      | _ => exact .inr ⟨_, fun form => rfl⟩
    | _ => exact .inr ⟨_, fun form => rfl⟩

theorem makeClosure_outcome (store : Store) (formals : Value) (body : List Value) (env : FrameId) :
    (body ≠ [] ∧ ∃ parsed, (∀ form, parseFormals store form formals = .ok parsed) ∧
        ∀ form name, makeClosure form name formals body env store =
          .done ⟨store.closures.size⟩ (store.newClosure ⟨name, parsed, body, env⟩).2) ∨
      ∃ reason, ∀ form name,
        makeClosure form name formals body env store = .fail (.badSyntax form reason) store := by
  cases body with
  | nil => exact .inr ⟨_, fun form name => rfl⟩
  | cons expr body =>
    rcases formalsWithin_outcome store (store.cells.size + 2) [] formals with
      ⟨parsed, hparsed⟩ | ⟨reason, hparsed⟩
    · refine .inl ⟨by simp, parsed, hparsed, fun form name => ?_⟩
      rw [makeClosure_cons, parseFormals, hparsed]
      rfl
    · refine .inr ⟨reason, fun form name => ?_⟩
      rw [makeClosure_cons, parseFormals, hparsed]
      rfl

private theorem operandList_of_improper {items : List Value} {tail : Value}
    (h : store.spine operands = .improper items tail) (form : String) :
    operandList form operands store =
      .fail (.badSyntax form "operands must form a proper list") store := by
  simp only [operandList, Native.elements, Native.read, bind, h, Interaction.bind, bad, Native.fail]

private theorem operandList_of_circular (h : store.spine operands = .circular) (form : String) :
    operandList form operands store = .endless store := by
  simp only [operandList, Native.elements, Native.read, bind, h, Interaction.bind, Native.endless]

/-- Bind `x` to `v`, which may get its name from it. -/
def bindNamed (held : Held) (env : FrameId) (x : Symbol) (v : Value) : Native Outcome := do
  nameIfSole v x.name held
  Native.change (fun store => store.define env x v)
  return .value (.symbol x)

private theorem define_of_symbol {x : Symbol} {expr : Value}
    (h : store.spine operands = .proper [.symbol x, expr]) (env : FrameId) :
    define operands env store =
      (Native.eval expr env { values := [.symbol x, expr] } >>=
        bindNamed { values := [.symbol x, expr] } env x) store := by
  simp only [define, bind, operandList_of_spine h, Interaction.bind]
  rfl

private theorem define_of_pair {c : CellId} {x : Symbol} {body : List Value}
    (h : store.spine operands = .proper (.pair c :: body)) (hc : store.first c = .symbol x)
    (env : FrameId) :
    define operands env store =
      (makeClosure "define" (some x.name) (store.rest c) body env store).bind fun id store =>
        .done (.value (.symbol x)) (store.define env x (.closure id)) := by
  simp only [define, bind, operandList_of_spine h, Interaction.bind, Native.read, hc, Native.change,
    pure]

theorem lambda_of_spine {formals : Value} {body : List Value}
    (h : store.spine operands = .proper (formals :: body)) (env : FrameId) :
    lambda operands env store =
      (makeClosure "lambda" none formals body env store).bind fun id store =>
        .done (.value (.closure id)) store := by
  simp only [lambda, bind, operandList_of_spine h, Interaction.bind, pure]

end Forms

open Forms

/-- The pair is `(define (f . formals) . body)`. -/
def ShortDefinition (library : Library) (store : Store) (env : FrameId) (c : CellId) (f : Symbol)
    (formals body : Value) : Prop :=
  Names library store env c Forms.define ∧ ∃ c₁ c₂,
    store.rest c = .pair c₁ ∧ store.first c₁ = .pair c₂ ∧ store.rest c₁ = body ∧
    store.first c₂ = .symbol f ∧ store.rest c₂ = formals

/-- The pair is `(define f (lambda formals . body))`. -/
def LongDefinition (library : Library) (store : Store) (env : FrameId) (c : CellId) (f : Symbol)
    (formals body : Value) : Prop :=
  Names library store env c Forms.define ∧ ∃ d d₁,
    store.spine (store.rest c) = .proper [.symbol f, .pair d] ∧
    Names library store env d Forms.lambda ∧ store.rest d = .pair d₁ ∧
    store.first d₁ = formals ∧ store.rest d₁ = body

/-- Neither the machine nor unfinished work refers to a closure that is not there. -/
structure Machine.Complete (m : Machine) (caller : Held) (ws : List Waiting) : Prop where
  store : m.store.Complete
  roots : ∀ t ∈ m.roots caller {} ws, m.store.lacks t = false

theorem Machine.Complete.lacks_of_roots {m m' : Machine} {caller context : Held}
    {ws : List Waiting} (h : m.Complete caller ws) (hcalls : m'.calls.values = m.calls.values)
    (hcontext : ∀ t ∈ context.refs, m.store.lacks t = false) :
    ∀ t ∈ m'.roots caller context ws, m.store.lacks t = false := by
  intro t ht
  simp only [Machine.roots, hcalls, List.mem_append] at ht
  rcases ht with ((ht | ht) | ht) | ht
  · exact h.roots t (by simp [Machine.roots, ht])
  · exact hcontext t ht
  · exact h.roots t (by simp [Machine.roots, ht])
  · exact h.roots t (by simp [Machine.roots, ht])

theorem Store.Complete.lacks_of_site {s : Store} (h : s.Complete) (c : CellId) (env : FrameId) :
    ∀ t ∈ (State.siteOf s c env).held.refs, s.lacks t = false := by
  intro t ht
  have hslot {v : Value} (hv : v ∈ [s.first c, s.rest c]) (ht : v.ref? = some t) :
      s.lacks t = false :=
    h.of_mentions (r := .cell c) (List.mem_filterMap.mpr ⟨v, hv, ht⟩)
  rcases CallSite.mem_refs_held.mp ht with rfl | hhead | hoperands | rfl
  · rfl
  · exact hslot (by simp [State.siteOf]) hhead
  · exact hslot (by simp [State.siteOf]) hoperands
  · rfl

namespace State

variable {setting : Setting} {ws : List Waiting} {m m' : Machine} {env : FrameId}
  {context held : Held}

theorem finishes_bindNamed {c : ClosureId} {x : Symbol} (hname : (m.store.closure c).name = none)
    (hsole : m.store.isSoleReference c (m.roots setting.caller (context.append held) ws) = true) :
    Finishes setting ws ⟨m, .native (bindNamed held env x (.closure c)) context, ws⟩
      (.ok (.symbol x))
      { m with store := (m.store.nameClosure c x.name).define env x (.closure c) } := by
  have hask : bindNamed held env x (.closure c) m.store =
      .isSole c held m.store fun sole store =>
        (if sole then Native.change (fun store => store.nameClosure c x.name) else pure ()
          : Native Unit) store |>.bind fun _ store =>
            .done (.value (.symbol x)) (store.define env x (.closure c)) := by
    simp only [bindNamed, nameIfSole, bind, Native.read, Interaction.bind, hname, Option.isNone_none,
      Native.isSole, Native.change, pure]
    rfl
  apply Finishes.later not_answersTo_native
  simp only [step, runNative, hask, hsole, if_true]
  exact finishes_native_value rfl

section Long

variable {f : Symbol} {formals body : Value} {long : CellId}

theorem proceeds_long (h : LongDefinition setting.library m.store env long f formals body)
    (hallows : setting.Allows (m.depth + 1)) (ws : List Waiting) :
    ∃ m₁ m₂ d d₁ held, m.SameEffects m₁ ∧ m.SameStack m₁ ∧ m₁.SameEffects m₂ ∧
      held.refs = [.cell d] ∧
      m.store.rest d = .pair d₁ ∧ m.store.first d₁ = formals ∧ m.store.rest d₁ = body ∧
      let w : Waiting :=
        .native (resumed (bindNamed held env f)) (siteOf m.store long env).held held
      Proceeds setting ws ⟨m, .eval (.pair long) env, ws⟩
        (nest setting m₁ (w :: ws) (.pair d) env) ∧
      Proceeds setting (w :: ws) (nest setting m₁ (w :: ws) (.pair d) env)
        ⟨m₂, .native (Forms.lambda (.pair d₁) env) (siteOf m₁.store d env).held,
          .nested (.pair d) env :: w :: ws⟩ := by
  obtain ⟨hnames, d, d₁, hspine, hlambda, hd, hformals, hbody⟩ := h
  obtain ⟨m₁, heffects, hsame, hbegun⟩ := proceeds_form hnames (hallows.mono (Nat.le_succ _)) ws
  have hask : Forms.define (m.store.rest long) env m₁.store =
      .eval (.pair d) env { values := [.symbol f, .pair d] } m₁.store
        (resumed (bindNamed { values := [.symbol f, .pair d] } env f)) := by
    rw [heffects.store]
    exact define_of_symbol hspine env
  rw [← heffects.store] at hlambda
  rw [← hsame.2] at hallows
  obtain ⟨m₂, heffects', hnested⟩ := proceeds_nested_form hlambda hallows
    (.native (resumed (bindNamed { values := [.symbol f, .pair d] } env f))
      (siteOf m.store long env).held { values := [.symbol f, .pair d] } :: ws)
  rw [heffects.store, hd] at hnested
  refine ⟨m₁, m₂, d, d₁, _, heffects, hsame, heffects', rfl, hd, hformals, hbody,
    hbegun.trans (proceeds_asking hask), ?_⟩
  rw [heffects.store]
  exact hnested

/-- If `lambda` makes a closure, the long form names it and binds it. -/
theorem finishes_long (h : LongDefinition setting.library m.store env long f formals body)
    (hallows : setting.Allows (m.depth + 1)) (hcomplete : m.Complete setting.caller ws)
    {parsed : Formals} {exprs : List Value}
    (hexprs : ∀ v ∈ exprs, ∀ t, v.ref? = some t → m.store.lacks t = false)
    (hlambda : ∀ d, m.store.first d = formals → m.store.rest d = body →
      Forms.lambda (.pair d) env m.store = .done (.value (.closure ⟨m.store.closures.size⟩))
        (m.store.newClosure ⟨none, parsed, exprs, env⟩).2) :
    ∃ m', Finishes setting ws ⟨m, .eval (.pair long) env, ws⟩ (.ok (.symbol f)) m' ∧
      m'.store = (m.store.newClosure ⟨some f.name, parsed, exprs, env⟩).2.define env f
        (.closure ⟨m.store.closures.size⟩) ∧
      m'.symbols = m.symbols ∧ m'.output = m.output := by
  obtain ⟨m₁, m₂, d, d₁, held, heffects₁, hsame, heffects₂, hheld, -, hformals, hbody, hbegun,
    hnested⟩ := proceeds_long h hallows ws
  have hmade := hlambda d₁ hformals hbody
  rw [← heffects₁.store, ← heffects₂.store] at hmade
  obtain ⟨m₃, hfin, hstore, hsymbols, houtput⟩ :=
    @finishes_nested_value setting _ m₂ env _ _ _ (.pair d) _ hmade
  have hvalue := hnested.finishes hfin
  have hcalls := (hsame.trans hvalue.sameStack_nest).1
  rw [heffects₂.store, heffects₁.store] at hstore hvalue
  have hcontext : ∀ t ∈ ((siteOf m.store long env).held.append held).refs,
      m.store.lacks t = false := by
    intro t ht
    rcases Held.mem_refs_append.mp ht with ht | ht
    · exact hcomplete.store.lacks_of_site long env t ht
    · obtain rfl : t = .cell d := by simpa [hheld] using ht
      rfl
  have hsole := Store.isSoleReference_newClosure hcomplete.store
    (c := ⟨none, parsed, exprs, env⟩) hexprs (hcomplete.lacks_of_roots hcalls hcontext)
  have hname : ((m.store.newClosure ⟨none, parsed, exprs, env⟩).2.closure
      ⟨m.store.closures.size⟩).name = none := by
    simp [Store.newClosure, Store.closure, Array.getD_eq_getD_getElem?]
  rw [← hstore] at hsole hname
  have hbound := @finishes_bindNamed setting ws m₃ env (siteOf m.store long env).held held
    _ f hname hsole
  refine ⟨_, (hbegun.trans hvalue.deliver_nest).finishes hbound, ?_,
    hsymbols.trans (heffects₂.symbols.trans heffects₁.symbols),
    houtput.trans (heffects₂.output.trans heffects₁.output)⟩
  rw [hstore]
  exact congrArg (Store.define · env f _) (Store.nameClosure_newClosure _ _ _ _ _)

end Long

end State

open State

/-- A definition in its short form and one in its long form, evaluated for any work: both make the
same closure with the name, parameters, body and environment of the definition, bind the name to it
in the frame of the definition, leave everything else as it is and give the name; or both fail with
bad syntax for the same reason, the one in `define`, the other in `lambda`, and have no effect; or the
body goes round in a circle and neither comes to an end. -/
theorem define_short_agrees_with_long {setting : Setting} {m : Machine} {env : FrameId} {f : Symbol}
    {formals body : Value} {short long : CellId} (ws ws' : List Waiting)
    (hallows : setting.Allows (m.depth + 1))
    (hshort : ShortDefinition setting.library m.store env short f formals body)
    (hlong : LongDefinition setting.library m.store env long f formals body)
    (hcomplete : m.Complete setting.caller ws') :
    (∃ exprs parsed m₁ m₂,
      m.store.Lists body exprs ∧ exprs ≠ [] ∧
      (∀ form, parseFormals m.store form formals = .ok parsed) ∧
      Finishes setting ws ⟨m, .eval (.pair short) env, ws⟩ (.ok (.symbol f)) m₁ ∧
      Finishes setting ws' ⟨m, .eval (.pair long) env, ws'⟩ (.ok (.symbol f)) m₂ ∧
      m₁.store = (m.store.newClosure ⟨some f.name, parsed, exprs, env⟩).2.define env f
        (.closure ⟨m.store.closures.size⟩) ∧
      m₁.symbols = m.symbols ∧ m₁.output = m.output ∧ m₁.SameEffects m₂) ∨
    (∃ reason m₁ m₂,
      Finishes setting ws ⟨m, .eval (.pair short) env, ws⟩
        (.error (.badSyntax "define" reason)) m₁ ∧
      Finishes setting ws' ⟨m, .eval (.pair long) env, ws'⟩
        (.error (.badSyntax "lambda" reason)) m₂ ∧
      m.SameEffects m₁ ∧ m.SameEffects m₂) ∨
    m.store.spine (m.store.rest short) = .circular ∧
      (∀ n, ¬ (after setting n ⟨m, .eval (.pair short) env, ws⟩).AnswersTo ws) ∧
      ∀ n, ¬ (after setting n ⟨m, .eval (.pair long) env, ws'⟩).AnswersTo ws' := by
  obtain ⟨hnames, c₁, c₂, hrest, hsignature, rfl, hf, rfl⟩ := hshort
  obtain ⟨m₁, heffects₁, -, hbegun₁⟩ :=
    proceeds_form hnames (hallows.mono (Nat.le_succ _)) ws
  obtain ⟨m₂, m₃, d, d₁, held, heffects₂, hsame₂, heffects₃, hheld, -, hformals, hbody,
    hbegun₂, hnested⟩ := proceeds_long hlong hallows ws'
  have hstore₃ : m₃.store = m.store := heffects₃.store.trans heffects₂.store
  rw [hrest] at hbegun₁
  -- What `lambda` fails with is what the long form fails with.
  have hfails (e : EvalError) (h : Forms.lambda (.pair d₁) env m.store = .fail e m.store) :
      ∃ m', Finishes setting ws' ⟨m, .eval (.pair long) env, ws'⟩ (.error e) m' ∧
        m.SameEffects m' := by
    rw [← hstore₃] at h
    have hfail := hnested.finishes (finishes_nested_fail h)
    refine ⟨_, (hbegun₂.trans hfail.deliver_nest).finishes (finishes_native_fail rfl), ?_⟩
    exact ⟨hstore₃, heffects₃.symbols.trans heffects₂.symbols,
      heffects₃.output.trans heffects₂.output⟩
  rcases m.store.spine_cases_of_rest hbody.symm with
    ⟨exprs, hspine₁, hspine₂⟩ | ⟨items, items', tail, hspine₁, hspine₂⟩ | ⟨hspine₁, hspine₂⟩
  · rw [hsignature] at hspine₁
    rw [hformals] at hspine₂
    have hshortly := define_of_pair hspine₁ hf env
    have hlongly := lambda_of_spine hspine₂ env
    have hlists := (Store.lists_cons_iff.mp (Store.lists_of_spine hspine₁))
    obtain ⟨_, hpair, -, hlists⟩ := hlists
    obtain rfl : c₁ = _ := by simpa using hpair
    rcases makeClosure_outcome m.store (m.store.rest c₂) exprs env with
      ⟨hne, parsed, hparsed, hmade⟩ | ⟨reason, hbad⟩
    · left
      have hshortly : Forms.define (.pair c₁) env m₁.store = .done (.value (.symbol f))
          ((m.store.newClosure ⟨some f.name, parsed, exprs, env⟩).2.define env f
            (.closure ⟨m.store.closures.size⟩)) := by
        rw [heffects₁.store, hshortly, hmade]
        rfl
      have hlambda (d : CellId) (hfirst : m.store.first d = m.store.rest c₂)
          (hrest : m.store.rest d = m.store.rest c₁) :
          Forms.lambda (.pair d) env m.store = .done (.value (.closure ⟨m.store.closures.size⟩))
            (m.store.newClosure ⟨none, parsed, exprs, env⟩).2 := by
        have hspine : m.store.spine (.pair d) = m.store.spine (.pair d₁) := by
          rw [Store.spine, Store.spineWithin, hfirst, hrest, ← hformals, ← hbody]
          rfl
        rw [lambda_of_spine (hspine.trans hspine₂), hmade]
        rfl
      obtain ⟨m₄, hfin₄, hstore₄, hsymbols₄, houtput₄⟩ := finishes_long hlong hallows hcomplete
        (fun v hv t ht => hcomplete.store.lacks_of_lists hlists hv ht) hlambda
      exact ⟨exprs, parsed, _, m₄, hlists, hne, hparsed,
        hbegun₁.finishes (finishes_native_value hshortly), hfin₄, rfl, heffects₁.symbols,
        heffects₁.output, hstore₄, hsymbols₄.trans heffects₁.symbols.symm,
        houtput₄.trans heffects₁.output.symm⟩
    · right; left
      rw [hbad] at hshortly hlongly
      obtain ⟨m₄, hfin₄, heffects₄⟩ := hfails _ hlongly
      rw [← heffects₁.store] at hshortly
      refine ⟨reason, _, m₄, hbegun₁.finishes (finishes_native_fail hshortly), hfin₄, ?_, heffects₄⟩
      exact heffects₁
  · right; left
    have hshortly : Forms.define (.pair c₁) env m₁.store =
        .fail (.badSyntax "define" "operands must form a proper list") m₁.store := by
      rw [heffects₁.store]
      simp only [Forms.define, bind, operandList_of_improper hspine₁, Interaction.bind]
    have hlongly : Forms.lambda (.pair d₁) env m.store =
        .fail (.badSyntax "lambda" "operands must form a proper list") m.store := by
      simp only [Forms.lambda, bind, operandList_of_improper hspine₂, Interaction.bind]
    obtain ⟨m₄, hfin₄, heffects₄⟩ := hfails _ hlongly
    exact ⟨_, _, m₄, hbegun₁.finishes (finishes_native_fail hshortly), hfin₄, heffects₁, heffects₄⟩
  · right; right
    have hshortly : Forms.define (.pair c₁) env m₁.store = .endless m₁.store := by
      rw [heffects₁.store]
      simp only [Forms.define, bind, operandList_of_circular hspine₁, Interaction.bind]
    have hlongly : Forms.lambda (.pair d₁) env m₃.store = .endless m₃.store := by
      rw [hstore₃]
      simp only [Forms.lambda, bind, operandList_of_circular hspine₂, Interaction.bind]
    refine ⟨by rw [hrest, hspine₁], hbegun₁.endless (endless_native hshortly ws), ?_⟩
    exact hbegun₂.endless (endless_nest (hnested.endless (endless_native hlongly _)))

namespace Defining

def library : Library where
  forms := #[Forms.define, Forms.lambda]

/-- Pair 0 is `(define (f x) x)` and pair 5 is `(define f (lambda (x) x))`; both share the parameters
and the body. -/
def machine : Machine where
  store :=
    { cells := #[
        ⟨.symbol ⟨0, "define"⟩, .pair ⟨1⟩⟩, ⟨.pair ⟨2⟩, .pair ⟨4⟩⟩, ⟨.symbol ⟨2, "f"⟩, .pair ⟨3⟩⟩,
        ⟨.symbol ⟨3, "x"⟩, .nil⟩, ⟨.symbol ⟨3, "x"⟩, .nil⟩,
        ⟨.symbol ⟨0, "define"⟩, .pair ⟨6⟩⟩, ⟨.symbol ⟨2, "f"⟩, .pair ⟨7⟩⟩, ⟨.pair ⟨8⟩, .nil⟩,
        ⟨.symbol ⟨1, "lambda"⟩, .pair ⟨9⟩⟩, ⟨.pair ⟨3⟩, .pair ⟨4⟩⟩]
      frames := #[⟨[(⟨0, "define"⟩, .form ⟨0, "define"⟩), (⟨1, "lambda"⟩, .form ⟨1, "lambda"⟩)],
        none⟩]
      closures := #[] }
  symbols := SymbolTable.empty
  calls := CallStack.empty
  depth := 0
  counters := none
  output := .silent

private theorem shortDefinition : ShortDefinition library machine.store ⟨0⟩ ⟨0⟩ ⟨2, "f"⟩ (.pair ⟨3⟩)
    (.pair ⟨4⟩) :=
  ⟨⟨⟨0, "define"⟩, ⟨0, "define"⟩, rfl, rfl, rfl⟩, ⟨1⟩, ⟨2⟩, rfl, rfl, rfl, rfl, rfl⟩

private theorem longDefinition : LongDefinition library machine.store ⟨0⟩ ⟨5⟩ ⟨2, "f"⟩ (.pair ⟨3⟩)
    (.pair ⟨4⟩) :=
  ⟨⟨⟨0, "define"⟩, ⟨0, "define"⟩, rfl, rfl, rfl⟩, ⟨8⟩, ⟨9⟩, rfl,
    ⟨⟨1, "lambda"⟩, ⟨1, "lambda"⟩, rfl, rfl, rfl⟩, rfl, rfl, rfl⟩

end Defining

open Defining in
/-- Both definitions of the machine succeed, and the closure they make is called `f`. -/
theorem identity_is_defined_either_way :
    ∃ m₁ m₂,
      Finishes ⟨library, none, {}⟩ [] ⟨machine, .eval (.pair ⟨0⟩) ⟨0⟩, []⟩
        (.ok (.symbol ⟨2, "f"⟩)) m₁ ∧
      Finishes ⟨library, none, {}⟩ [] ⟨machine, .eval (.pair ⟨5⟩) ⟨0⟩, []⟩
        (.ok (.symbol ⟨2, "f"⟩)) m₂ ∧
      (m₁.store.closure ⟨0⟩).name = some "f" ∧ m₁.SameEffects m₂ := by
  have hcomplete : machine.Complete {} [] := ⟨by decide, by decide⟩
  have hallows : Setting.Allows ⟨library, none, {}⟩ (machine.depth + 1) :=
    Setting.allows_of_unlimited rfl _
  obtain ⟨m, hfin, -⟩ : ∃ m, Finishes ⟨library, none, {}⟩ []
      ⟨machine, .eval (.pair ⟨0⟩) ⟨0⟩, []⟩ (.ok (.symbol ⟨2, "f"⟩)) m ∧ m.depth = 0 :=
    exists_finishes (fun m => m.depth) 20 (by decide +kernel)
  rcases define_short_agrees_with_long [] [] hallows shortDefinition longDefinition hcomplete with
    ⟨exprs, parsed, m₁, m₂, -, -, -, hshort, hlong, hstore, -, -, heffects⟩ |
    ⟨reason, m₁, m₂, hshort, -⟩ | ⟨hcircular, -⟩
  · refine ⟨m₁, m₂, hshort, hlong, ?_, heffects⟩
    rw [hstore]
    rfl
  · simpa using (hfin.unique hshort).1
  · exact absurd hcircular (by decide)

end MiniScheme
