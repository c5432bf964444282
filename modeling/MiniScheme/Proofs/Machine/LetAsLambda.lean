import MiniScheme.Proofs.Alike.Lockstep
import MiniScheme.Proofs.Alike.Spare
import MiniScheme.Proofs.Alike.Texts
import MiniScheme.Proofs.Machine.Definition
import MiniScheme.Proofs.Machine.NestedLet
/-! # `let` as the application of a `lambda`

`(let ((name init) ...) body ...)` does what `((lambda (name ...) body ...) init ...)` does. Both
evaluate the `init`s from left to right in the environment of the form, bind the names in one new frame
inside it, go through the body there and leave its last expression in their place. The application
makes a closure before all that, to which nothing else ever refers. From then on the two evaluations
are of alike expressions on machines that are alike but for this closure.

Each evaluation holds on to the pairs of its own form. What native code hears about who holds a closure
is nevertheless the same, as both forms lead to the same `init`s and the same body.
-/
namespace MiniScheme

namespace Tree

variable {c : CellId} {first rest : Tree} {env : FrameId} {r : Ref}

private theorem mem_atoms_list {ts : List (CellId × Tree)} {v : Value} :
    v ∈ (list ts).atoms ↔ (∃ p ∈ ts, v ∈ p.2.atoms) ∨ v = .nil := by
  induction ts with
  | nil => simp [list, atoms]
  | cons p ts ih =>
    rw [list, atoms, List.mem_append, ih]
    simp only [List.mem_cons, exists_eq_or_imp, or_assoc]

theorem refs_parts {α : Type} (cell : α → CellId) (part : α → Value) (as : List α) :
    (list (as.map fun a => (cell a, .atom (part a)))).refs = (as.map part).filterMap Value.ref? := by
  induction as with
  | nil => rfl
  | cons a as ih =>
    rw [List.map_cons, list, refs_pair, ih, List.map_cons, refs, atoms]
    exact List.filterMap_append.symm

theorem covers_list_append {ts ts' : List (CellId × Tree)} (h : (list ts').Covers r) :
    (list (ts ++ ts')).Covers r := by
  induction ts with
  | nil => exact h
  | cons p ts ih => exact covers_pair.mpr (.inr (.inr ih))

/-- Work for an application holds on to its text and to its environment, and to the rest that it needs. -/
theorem heldBy_of_site (setting : Setting) (ws : List Waiting) {w : Waiting} {extra : Held}
    {more also : List Ref}
    (hw : w.held = (CallSite.held ⟨c, first.value, rest.value, env⟩).append extra)
    (hmore : more ⊆ extra.refs)
    (hextra : ∀ r ∈ extra.refs, r ∈ more ∨ (pair c first rest).Covers r ∨ r ∈ also) :
    (pair c first rest).HeldBy env ((setting.bearing ws).caller.refs ++ more) also
      (setting.bearing (w :: ws)).caller.refs where
  text r hr := by
    rw [Held.mem_refs_bearing, hw, Held.mem_refs_append, CallSite.mem_refs_held]
    exact .inr (.inl (.inl (Option.some.inj hr).symm))
  scope := by
    rw [Held.mem_refs_bearing, hw, Held.mem_refs_append, CallSite.mem_refs_held]
    exact .inr (.inl (.inr (.inr (.inr rfl))))
  rest r hr := by
    rw [Held.mem_refs_bearing, hw, Held.mem_refs_append]
    exact (List.mem_append.mp hr).imp id fun hr => .inr (hmore hr)
  only r hr := by
    rw [Held.mem_refs_bearing, hw, Held.mem_refs_append, CallSite.mem_refs_held] at hr
    rw [List.mem_append]
    rcases hr with hr | (rfl | hr | hr | rfl) | hr
    · exact .inl (.inl hr)
    · exact .inr (.inr (.inl (covers_pair.mpr (.inl rfl))))
    · exact .inr (.inr (.inl (covers_pair.mpr (.inr (.inl (covers_of_ref?_value hr))))))
    · exact .inr (.inr (.inl (covers_pair.mpr (.inr (.inr (covers_of_ref?_value hr))))))
    · exact .inr (.inl rfl)
    · rcases hextra r hr with hr | hr | hr
      · exact .inl (.inr hr)
      · exact .inr (.inr (.inl hr))
      · exact .inr (.inr (.inr hr))

end Tree

/-- A name and the expression for its value: a list of two in the `let`, a parameter and an operand in
the application of the `lambda`. -/
structure LetBinding where
  name : Symbol
  init : Value
  binding : CellId
  nameCell : CellId
  initCell : CellId
  parameter : CellId
  operand : CellId

/-- An expression of the body, which is a part of both forms. -/
structure BodyPart where
  expr : Value
  inLet : CellId
  inLambda : CellId

/-- `(let ((name init) ...) body ...)` and `((lambda (name ...) body ...) init ...)`, with all pairs. -/
structure BothForms where
  letName : Symbol
  lambdaName : Symbol
  letCell : CellId
  bindingsCell : CellId
  callCell : CellId
  lambdaCell : CellId
  parametersCell : CellId
  bindings : List LetBinding
  body : List BodyPart

namespace LetBinding

def inLet (b : LetBinding) : CellId × Tree :=
  (b.binding, .list [(b.nameCell, .atom (.symbol b.name)), (b.initCell, .atom b.init)])

end LetBinding

namespace BothForms

variable (x : BothForms)

def names : List Symbol := x.bindings.map (·.name)

def inits : List Value := x.bindings.map (·.init)

def exprs : List Value := x.body.map (·.expr)

def pairs : List (Symbol × Value) := x.bindings.map fun b => (b.name, b.init)

def letBindings : Tree := .list (x.bindings.map LetBinding.inLet)

def letTail : Tree :=
  .list ((x.bindingsCell, x.letBindings) :: x.body.map fun e => (e.inLet, .atom e.expr))

def letText : Tree := .pair x.letCell (.atom (.symbol x.letName)) x.letTail

def parameters : Tree := .list (x.bindings.map fun b => (b.parameter, .atom (.symbol b.name)))

def lambdaTail : Tree :=
  .list ((x.parametersCell, x.parameters) :: x.body.map fun e => (e.inLambda, .atom e.expr))

def lambdaText : Tree := .pair x.lambdaCell (.atom (.symbol x.lambdaName)) x.lambdaTail

def operands (bindings : List LetBinding) : Tree :=
  .list (bindings.map fun b => (b.operand, .atom b.init))

def callText : Tree := .pair x.callCell x.lambdaText (operands x.bindings)

/-- The closure that the application makes. -/
def closure (env : FrameId) : Closure := ⟨none, .fixed x.names, x.exprs, env⟩

/-! Both texts refer to the `init`s and to the body. -/

private theorem refs_letText :
    x.letText.refs = x.inits.filterMap Value.ref? ++ x.exprs.filterMap Value.ref? := by
  have hbindings (bs : List LetBinding) : (Tree.list (bs.map LetBinding.inLet)).refs =
      (bs.map (·.init)).filterMap Value.ref? := by
    induction bs with
    | nil => rfl
    | cons b bs ih =>
      have hbinding : (LetBinding.inLet b).2.refs = [b.init].filterMap Value.ref? := rfl
      rw [List.map_cons, Tree.list, Tree.refs_pair, ih, hbinding, ← List.filterMap_append]
      rfl
  rw [letText, letTail, Tree.refs_pair, Tree.list, Tree.refs_pair, Tree.refs_parts, letBindings,
    hbindings]
  rfl

private theorem refs_callText :
    x.callText.refs = x.exprs.filterMap Value.ref? ++ x.inits.filterMap Value.ref? := by
  have hparameters : x.parameters.refs = [] := by
    rw [parameters, Tree.refs_parts LetBinding.parameter fun b => .symbol b.name]
    exact List.filterMap_eq_nil_iff.mpr fun v hv => by
      obtain ⟨b, -, rfl⟩ := List.mem_map.mp hv
      rfl
  rw [callText, operands, Tree.refs_pair, Tree.refs_parts, lambdaText, lambdaTail, Tree.refs_pair,
    Tree.list, Tree.refs_pair, Tree.refs_parts, hparameters]
  rfl

private theorem mem_refs_callText {r : Ref} : r ∈ x.callText.refs ↔ r ∈ x.letText.refs := by
  rw [refs_callText, refs_letText, List.mem_append, List.mem_append, or_comm]

private theorem mem_refs_letText {v : Value} (hv : v ∈ x.inits ++ x.exprs) {r : Ref}
    (hr : v.ref? = some r) : r ∈ x.letText.refs := by
  rw [refs_letText, ← List.filterMap_append]
  exact List.mem_filterMap.mpr ⟨v, hv, hr⟩

theorem covers_operands {rest : List LetBinding} (h : rest <:+ x.bindings) {r : Ref}
    (hr : (operands rest).Covers r) : x.callText.Covers r := by
  obtain ⟨before, heq⟩ := h
  rw [callText, Tree.covers_pair, ← heq, operands, List.map_append]
  exact .inr (.inr (Tree.covers_list_append hr))

/-! What stands in the store is read as it is written. -/

section Reading

variable {x} {s : Store} {env : FrameId}

private theorem spine_letTail (h : s.Stands x.letText) :
    s.spine x.letTail.value = .proper (x.letBindings.value :: x.exprs) := by
  have hspine := Store.Stands.spine h.2.2
  rw [List.map_cons, List.map_map] at hspine
  exact hspine

private theorem readsBindings (h : s.Stands x.letText) :
    s.ReadsBindings x.letBindings.value x.pairs := by
  have hlist : s.Stands x.letBindings := h.2.2.2.1
  refine ⟨_, hlist.spine, ?_⟩
  rw [List.map_map, pairs, List.forall₂_map_left_iff, List.forall₂_map_right_iff, List.forall₂_same]
  exact fun b hb => Store.Stands.spine (hlist.of_mem (List.mem_map_of_mem hb))

private theorem letLike {library : Library} (h : s.Stands x.letText) (hbody : x.body ≠ [])
    (hlet : Names library s env x.letCell Forms.letForm) :
    LetLike library s env x.letCell Forms.letForm x.pairs x.exprs where
  names := hlet
  operands := ⟨_, by rw [h.rest_eq, spine_letTail h], readsBindings h⟩
  body := by simpa [exprs] using hbody

private theorem spine_lambdaTail (h : s.Stands x.callText) :
    s.spine x.lambdaTail.value = .proper (x.parameters.value :: x.exprs) := by
  have hspine := Store.Stands.spine h.2.1.2.2
  rw [List.map_cons, List.map_map] at hspine
  exact hspine

private theorem parseFormals_parameters (h : s.Stands x.callText)
    (hdistinct : Symbol.Distinct x.names)
    (form : String) : Forms.parseFormals s form x.parameters.value = .ok (.fixed x.names) := by
  have hlist : s.Stands x.parameters := h.2.1.2.2.2.1
  have hlists : s.Lists x.parameters.value (x.names.map .symbol) := by
    have hlists := hlist.lists
    rw [List.map_map] at hlists
    rw [names, List.map_map]
    exact hlists
  have hlength : x.names.length < s.cells.size + 2 := by
    have hlength := hlist.length_le
    rw [List.length_map] at hlength
    rw [names, List.length_map]
    omega
  exact Forms.formalsWithin_of_lists form hlists (by rwa [List.append_nil]) hlength

private theorem lambda_lambdaTail (h : s.Stands x.callText) (hdistinct : Symbol.Distinct x.names)
    (hbody : x.body ≠ []) :
    Forms.lambda (s.rest x.lambdaCell) env s = .done (.value (.closure ⟨s.closures.size⟩))
      (s.newClosure (x.closure env)).2 := by
  obtain ⟨e, rest, heq⟩ := List.exists_cons_of_ne_nil hbody
  have hspine := spine_lambdaTail h
  have hexprs : x.exprs = e.expr :: rest.map (·.expr) := by rw [exprs, heq, List.map_cons]
  rw [h.2.1.rest_eq, Forms.lambda_of_spine hspine, hexprs, Forms.makeClosure_cons,
    parseFormals_parameters h hdistinct, closure, hexprs]
  rfl

end Reading

end BothForms

namespace Machine

variable {m : Machine} {held : List Value}

theorem InOrder.knows_of_stands (h : m.InOrder held) {t : Tree} (ht : m.store.Stands t)
    (hvalue : m.Knows t.value) : ∀ v ∈ t.atoms, m.Knows v := by
  induction t with
  | atom v =>
    intro w hw
    rw [List.mem_singleton.mp hw]
    exact hvalue
  | pair c first rest ihfirst ihrest =>
    intro w hw
    obtain ⟨hfirst, hrest⟩ := h.cells _ (Array.mem_of_getElem? ht.1)
    rcases List.mem_append.mp hw with hw | hw
    · exact ihfirst ht.2.1 hfirst w hw
    · exact ihrest ht.2.2 hrest w hw

end Machine

namespace BothForms

open Forms

variable {x : BothForms} {m : Machine} {held : List Value} {env : FrameId}

private theorem knows_parts (h : m.InOrder held) (ht : m.store.Stands x.letText) :
    (∀ v ∈ x.inits ++ x.exprs, m.Knows v) ∧ ∀ y ∈ x.names, m.Knows (.symbol y) := by
  have hatoms := h.knows_of_stands ht trivial
  have hbinding {b : LetBinding} (hb : b ∈ x.bindings) {v : Value} (hv : v ∈ b.inLet.2.atoms) :
      m.Knows v :=
    hatoms v (List.mem_append_right _ (List.mem_append_left _
      (Tree.mem_atoms_list.mpr (.inl ⟨_, List.mem_map_of_mem hb, hv⟩))))
  have hpart {e : BodyPart} (he : e ∈ x.body) : m.Knows e.expr :=
    hatoms _ (List.mem_append_right _ (List.mem_append_right _
      (Tree.mem_atoms_list.mpr (.inl ⟨_, List.mem_map_of_mem he, List.mem_singleton_self _⟩))))
  constructor
  · intro v hv
    rcases List.mem_append.mp hv with hv | hv
    · obtain ⟨b, hb, rfl⟩ := List.mem_map.mp hv
      exact hbinding hb (by simp [LetBinding.inLet, Tree.list, Tree.atoms])
    · obtain ⟨e, he, rfl⟩ := List.mem_map.mp hv
      exact hpart he
  · intro y hy
    obtain ⟨b, hb, rfl⟩ := List.mem_map.mp hy
    exact hbinding hb (by simp [LetBinding.inLet, Tree.list, Tree.atoms])

/-- The two texts are twins to machines that differ by the closure of the application. -/
theorem twins (h : m.InOrder held) (ht : m.store.Stands x.letText)
    (hbody : ∀ v ∈ (x.closure env).body, m.Knows v) :
    Tree.Twins (Terms.beside (m.spare (x.closure env) hbody)) (m.spare (x.closure env) hbody) env
      x.letText x.callText where
  some_spare := rfl
  refs_iff := x.mem_refs_callText
  fixed {r} hr := by
    rw [refs_letText, ← List.filterMap_append] at hr
    obtain ⟨v, hv, href⟩ := List.mem_filterMap.mp hr
    have hself := (h.alike hbody ((knows_parts h ht).1 v hv)).ref?_eq
    rw [href] at hself
    exact (Option.some.inj hself).symm
  content_env := rfl
  content_body {v r} hv hr := by
    rw [refs_letText]
    exact List.mem_append_right _ (List.mem_filterMap.mpr ⟨v, hv, hr⟩)

def letSite (x : BothForms) (env : FrameId) : CallSite :=
  ⟨x.letCell, .symbol x.letName, x.letTail.value, env⟩

def callSite (x : BothForms) (env : FrameId) : CallSite :=
  ⟨x.callCell, .pair x.lambdaCell, (operands x.bindings).value, env⟩

end BothForms

private theorem Store.Stands.siteOf_eq {s : Store} {c : CellId} {first rest : Tree}
    (h : s.Stands (.pair c first rest)) (env : FrameId) :
    State.siteOf s c env = ⟨c, first.value, rest.value, env⟩ := by
  rw [State.siteOf, h.first_eq, h.rest_eq]

namespace State

open Forms BothForms

variable {setting : Setting} {ws : List Waiting} {m m' : Machine} {env : FrameId} {x : BothForms}

theorem proceeds_call (hstands : m.store.Stands x.callText) (hdistinct : Symbol.Distinct x.names)
    (hbody : x.body ≠ []) (hlambda : Names setting.library m.store env x.lambdaCell Forms.lambda)
    (hallows : setting.Allows (m.depth + 1)) (ws : List Waiting) :
    ∃ m', m'.store = (m.store.newClosure (x.closure env)).2 ∧ m'.symbols = m.symbols ∧
      m'.output = m.output ∧ m.SameStack m' ∧
      Proceeds setting ws ⟨m, .eval (.pair x.callCell) env, ws⟩
        (nextArgument setting m' ws ⟨m.store.closures.size⟩ (x.callSite env) []
          (operands x.bindings).value) := by
  obtain ⟨m₁, heffects, hnested⟩ := proceeds_nested_form
    (m := m.count Counters.countExpression) hlambda hallows (.operator (x.callSite env) :: ws)
  have hmade : Forms.lambda (m.store.rest x.lambdaCell) env m₁.store =
      .done (.value (.closure ⟨m.store.closures.size⟩)) (m.store.newClosure (x.closure env)).2 := by
    rw [heffects.store]
    exact lambda_lambdaTail hstands hdistinct hbody
  obtain ⟨m₂, hfin, hstore, hsymbols, houtput⟩ := finishes_nested_value hmade
  have hvalue := hnested.finishes hfin
  refine ⟨m₂, hstore, hsymbols.trans heffects.symbols, houtput.trans heffects.output,
    hvalue.sameStack_nest, ?_⟩
  have hsite : siteOf m.store x.callCell env = x.callSite env := hstands.siteOf_eq env
  have hfirst : m.store.first x.callCell = .pair x.lambdaCell := hstands.first_eq
  rw [← hsite, ← hfirst] at hvalue
  have hproceeds := proceeds_operator hvalue
  rwa [hsite] at hproceeds

theorem applyClosure_of_fixed (setting : Setting) (ws : List Waiting) {c : ClosureId} {name : Option String} {names : List Symbol}
    {body args : List Value} (hc : m.store.closure c = ⟨name, .fixed names, body, env⟩)
    (hlength : args.length = names.length) (hbody : body ≠ []) (context : Held) (inPlace : Bool) :
    applyClosure setting m ws c args context inPlace =
      nextBody setting
        { m.count Counters.countProcedureCall with
          store := (m.store.child env).2.defineAll (m.store.child env).1 (names.zip args) }
        ws (m.store.child env).1 context inPlace body := by
  have haccepts : (Formals.fixed names).arity.accepts args.length = true := by
    simp [Formals.arity, Arity.accepts, hlength]
  have hbind : m.store.bind (m.store.closure c) args = (.ok (m.store.child env).1,
      (m.store.child env).2.defineAll (m.store.child env).1 (names.zip args)) := by
    simp only [Store.bind, hc, Arity.check, haccepts, Store.extend, if_true]
  have hnonempty : (m.store.closure c).body.isEmpty = false := by simpa [hc] using hbody
  simp only [applyClosure, Machine.bindArguments, Machine.count, hbind, hnonempty]
  rw [hc]
  rfl

section Loops

variable {spare : Spare} {L L' : Link (Terms.beside spare)}
  (htwins : Tree.Twins (Terms.beside spare) spare env x.letText x.callText)
  (hcontent : spare.content = x.closure env)
  (hakin : setting.Akin (Terms.beside spare) setting)

/-- Both texts stand, one for each evaluation. -/
abbrev Both (setting : Setting) (ws : List Waiting) (x : BothForms) (s s' : State) : Prop :=
  Throughout setting ws (·.Stands x.letText) s ∧ Throughout setting ws (·.Stands x.callText) s'

/-- In stores in which both texts stand, work for the `let` and work for the application hold on to the
same. -/
abbrev WorkAlike (setting : Setting) (ws : List Waiting) (x : BothForms) (spare : Spare)
    (env : FrameId) (w w' : Waiting) : Prop :=
  HoldAlike (Terms.beside spare) (Tree.Own x.letText x.callText) (Tree.Shared x.letText env)
    (·.Stands x.letText) (·.Stands x.callText) (setting.bearing (w :: ws)).caller
    (setting.bearing (w' :: ws)).caller

include htwins in
private theorem workAlike_of_held {w w' : Waiting} (extra extra' : Held) (more : List Ref)
    (hcaller : (setting.bearing ws).caller.Alike L (setting.bearing ws).caller)
    (hw : w.held = (x.letSite env).held.append extra)
    (hw' : w'.held = (x.callSite env).held.append extra') (hmore : more ⊆ extra.refs)
    (hmore' : more.map (Ref.rename (Terms.beside spare).closure) ⊆ extra'.refs)
    (hextra : ∀ r ∈ extra.refs, r ∈ more ∨ x.letText.Covers r)
    (hextra' : ∀ r ∈ extra'.refs, r ∈ more.map (Ref.rename (Terms.beside spare).closure) ∨
      x.callText.Covers r ∨ r ∈ [.closure spare.id]) :
    WorkAlike setting ws x spare env w w' := by
  intro L' s s' hs ht ht'
  have hheld : x.letText.HeldBy env ((setting.bearing ws).caller.refs ++ more) []
      (setting.bearing (w :: ws)).caller.refs :=
    Tree.heldBy_of_site setting ws hw hmore fun r hr => (hextra r hr).imp id .inl
  have hheld' := Tree.heldBy_of_site setting ws hw' hmore' hextra'
  refine htwins.moored hs ht ht' hheld ?_
  rwa [List.map_append, ← hcaller.refs_eq]

/-- What the application still holds on to at its body. -/
def bodyContext (x : BothForms) (env : FrameId) (c : ClosureId) : Held :=
  (x.callSite env).held.append ⟨[.closure c], []⟩

include htwins in
private theorem workAlike_body {frame : FrameId} {rest : List Value} (hpart : rest ⊆ x.exprs)
    (hcaller : (setting.bearing ws).caller.Alike L (setting.bearing ws).caller)
    (resume : Except EvalError Value → Native Outcome) :
    WorkAlike setting ws x spare env
      (.native resume (x.letSite env).held { values := x.exprs, frames := [frame] })
      (.body rest frame (bodyContext x env spare.id) true) := by
  have hpart' {v : Value} (hv : v ∈ x.exprs) {r : Ref} (hr : v.ref? = some r) : r ∈ x.letText.refs :=
    x.mem_refs_letText (List.mem_append_right _ hv) hr
  refine workAlike_of_held htwins { values := x.exprs, frames := [frame] }
    ⟨.closure spare.id :: rest, [frame]⟩ [.frame frame] hcaller rfl rfl ?_ ?_ ?_ ?_
  · simp [Held.refs]
  · simp [Held.refs, Ref.rename]
  · intro r hr
    rcases Held.mem_refs.mp hr with ⟨v, hv, hr⟩ | ⟨e, he, rfl⟩
    · exact .inr (.inr (hpart' hv hr))
    · exact .inl (List.mem_map_of_mem he)
  · intro r hr
    rcases Held.mem_refs.mp hr with ⟨v, hv, hr⟩ | ⟨e, he, rfl⟩
    · rcases List.mem_cons.mp hv with rfl | hv
      · exact .inr (.inr (List.mem_singleton.mpr (Option.some.inj hr).symm))
      · exact .inr (.inl (.inr (x.mem_refs_callText.mpr (hpart' (hpart hv) hr))))
    · exact .inl (List.mem_map_of_mem (List.mem_map_of_mem he))

include htwins in
private theorem workAlike_inits {values values' : List Value} (hvalues : Values L values values')
    {rest : List LetBinding} (hrest : rest <:+ x.bindings)
    (hcaller : (setting.bearing ws).caller.Alike L (setting.bearing ws).caller)
    (resume : Except EvalError Value → Native Outcome) :
    WorkAlike setting ws x spare env
      (.native resume (x.letSite env).held { values := values ++ (x.inits ++ x.exprs) })
      (.argument spare.id (x.callSite env) (operands rest).value values') := by
  have hrename := Values.filterMap_ref?_eq hvalues
  refine workAlike_of_held htwins { values := values ++ (x.inits ++ x.exprs) }
    ⟨.closure spare.id :: (operands rest).value :: values', []⟩ (values.filterMap Value.ref?)
    hcaller rfl rfl ?_ ?_ ?_ ?_
  · intro r hr
    simp only [Held.refs, List.filterMap_append, List.mem_append]
    exact .inl (.inl hr)
  · rw [← hrename]
    intro r hr
    obtain ⟨v, hv, hr⟩ := List.mem_filterMap.mp hr
    exact Held.mem_refs.mpr (.inl ⟨v, by simp [hv], hr⟩)
  · intro r hr
    rcases Held.mem_refs.mp hr with ⟨v, hv, hr⟩ | ⟨e, he, rfl⟩
    · rcases List.mem_append.mp hv with hv | hv
      · exact .inl (List.mem_filterMap.mpr ⟨v, hv, hr⟩)
      · exact .inr (.inr (x.mem_refs_letText hv hr))
    · simp at he
  · rw [← hrename]
    intro r hr
    rcases Held.mem_refs.mp hr with ⟨v, hv, hr⟩ | ⟨e, he, rfl⟩
    · rcases List.mem_cons.mp hv with rfl | hv
      · exact .inr (.inr (List.mem_singleton.mpr (Option.some.inj hr).symm))
      · rcases List.mem_cons.mp hv with rfl | hv
        · exact .inr (.inl (x.covers_operands hrest (Tree.covers_of_ref?_value hr)))
        · exact .inl (List.mem_filterMap.mpr ⟨v, hv, hr⟩)
    · simp at he

include htwins hakin in
theorem corresponds_body {frame : FrameId} {expr : Value} {rest : List Value}
    {program : Native Outcome} {store : Store}
    (hcaller : (setting.bearing ws).caller.Alike L (setting.bearing ws).caller)
    (hpart : expr :: rest ⊆ x.exprs) (hexprs : ∀ v ∈ x.exprs, v.Alike L v)
    (hprogram : program m.store =
      sequence { values := x.exprs, frames := [frame] } frame (expr :: rest) store)
    (hm : Machine.Alike L { m with store := store } m')
    (hboth : Both setting ws x ⟨m, .native program (x.letSite env).held, ws⟩
      (nextBody setting m' ws frame (bodyContext x env spare.id) true (expr :: rest))) :
    Corresponds L setting setting ws ws ⟨m, .native program (x.letSite env).held, ws⟩
      (nextBody setting m' ws frame (bodyContext x env spare.id) true (expr :: rest)) := by
  have hexpr : expr.Alike L expr := hexprs expr (hpart (List.mem_cons_self ..))
  induction rest generalizing L expr m m' program store with
  | nil =>
    refine .of_proceeds (proceeds_tail hprogram) (.refl _) ?_
    exact corresponds_tail trivial hakin hm hexpr hcaller
  | cons next rest ih =>
    have hrest := List.subset_of_cons_subset hpart
    refine corresponds_asking hprogram (fun _ _ => rfl) (workAlike_body htwins hrest hcaller _)
      trivial hakin hm hexpr hboth.1 hboth.2 ?_
    intro L' a b m₁ m₁' hle _ hm₁ hnow _ hnow'
    have hexprs' : ∀ v ∈ x.exprs, v.Alike L' v := fun v hv => (hexprs v hv).mono hle
    exact ih (hcaller.mono hle) hrest hexprs' rfl hm₁ ⟨hnow, hnow'⟩
      (hexprs' next (hrest (List.mem_cons_self ..)))

include htwins hcontent hakin in
theorem corresponds_bound {values values' : List (Symbol × Value)} {program : Native Outcome}
    (hbody : x.body ≠ [])
    (hcaller : (setting.bearing ws).caller.Alike L (setting.bearing ws).caller)
    (hexprs : ∀ v ∈ x.exprs, v.Alike L v) (hvalues : Bindings L values values')
    (hnames : values.map (·.1) = x.names)
    (hprogram : program m.store = letBody env x.exprs values m.store) (hm : m.Alike L m')
    (hboth : Both setting ws x ⟨m, .native program (x.letSite env).held, ws⟩
      (applyClosure setting m' ws spare.id (values'.map (·.2)) (bodyContext x env spare.id) true)) :
    Corresponds L setting setting ws ws ⟨m, .native program (x.letSite env).held, ws⟩
      (applyClosure setting m' ws spare.id (values'.map (·.2)) (bodyContext x env spare.id) true) := by
  have hnames' : values'.map (·.1) = x.names := (hvalues.names_eq trivial).trans hnames
  have hzip : x.names.zip (values'.map (·.2)) = values' := by
    rw [← hnames', List.zip_map']
    exact List.map_id values'
  have hlength : (values'.map (·.2)).length = x.names.length := by
    rw [← hnames', List.length_map, List.length_map]
  obtain ⟨e, rest, heq⟩ := List.exists_cons_of_ne_nil hbody
  have hne : x.exprs = e.expr :: rest.map (·.expr) := by rw [exprs, heq, List.map_cons]
  have hclosure : m'.store.closure spare.id = x.closure env := (hm.store.spare rfl).trans hcontent
  have hcall := applyClosure_of_fixed setting ws hclosure hlength
    (by rw [hne]; exact List.cons_ne_nil _ _) (bodyContext x env spare.id) true
  have hframe : (m'.store.child env).1 = (m.store.child env).1 := (hm.store.newFrame (some env)).1
  have hstore : ((m.store.child env).2.defineAll (m.store.child env).1 values).Alike L
      ((m'.store.child env).2.defineAll (m.store.child env).1 values') :=
    (hm.store.newFrame (some env)).2.defineAll _ hvalues
  rw [hcall, hzip, hframe, hne] at hboth ⊢
  refine corresponds_body htwins hakin hcaller (hne ▸ List.Subset.refl _) hexprs ?_
    ⟨hstore, hm.symbols, hm.calls, False.elim, hm.depth, False.elim, hm.output⟩ hboth
  rw [hprogram, hne]
  rfl

private theorem id_not_mem_before {before rest : List LetBinding} {b : LetBinding}
    (hdistinct : Symbol.Distinct x.names) (hsplit : before ++ b :: rest = x.bindings) :
    b.name.id ∉ (before.map (·.name)).map Symbol.id := by
  rw [names, ← hsplit, List.map_append, List.map_cons, Symbol.distinct_middle, Symbol.Distinct,
    List.map_cons, List.map_append] at hdistinct
  exact fun hmem => (List.nodup_cons.mp hdistinct).1 (List.mem_append_left _ hmem)

theorem nextArgument_operands {before rest : List LetBinding} {b : LetBinding}
    (hstands : m'.store.Stands x.callText) (hsplit : before ++ b :: rest = x.bindings)
    {values : List Value} :
    nextArgument setting m' ws spare.id (x.callSite env) values (operands (b :: rest)).value =
      nest setting m' (.argument spare.id (x.callSite env) (operands rest).value values :: ws) b.init
        env := by
  have hall : m'.store.Stands (operands x.bindings) := hstands.2.2
  rw [← hsplit, operands, List.map_append] at hall
  have hoperands : m'.store.Stands (operands (b :: rest)) := hall.of_append
  have hfirst : m'.store.first b.operand = b.init := hoperands.first_eq
  have hrest : m'.store.rest b.operand = (operands rest).value := hoperands.rest_eq
  rw [← hfirst, ← hrest]
  rfl

include htwins hcontent hakin in
/-- From one of the names on, the two evaluations come to the same. -/
theorem corresponds_inits {before rest : List LetBinding} {reversed reversed' : List (Symbol × Value)}
    {program : Native Outcome} (hdistinct : Symbol.Distinct x.names) (hbody : x.body ≠ [])
    (hcaller : (setting.bearing ws).caller.Alike L (setting.bearing ws).caller)
    (hparts : ∀ v ∈ x.inits ++ x.exprs, v.Alike L v) (hsymbols : ∀ y ∈ x.names, L.symbol y y)
    (hsplit : before ++ rest = x.bindings) (hreversed : Bindings L reversed reversed')
    (hnames : reversed.map (·.1) = (before.map (·.name)).reverse)
    (hprogram : program m.store =
      (letValues (reversed.map (·.2) ++ (x.inits ++ x.exprs)) env reversed
        (rest.map fun b => (b.name, b.init)) >>= letBody env x.exprs) m.store)
    (hm : m.Alike L m') (hstands : m'.store.Stands x.callText)
    (hboth : Both setting ws x ⟨m, .native program (x.letSite env).held, ws⟩
      (nextArgument setting m' ws spare.id (x.callSite env) (reversed'.map (·.2))
        (operands rest).value)) :
    Corresponds L setting setting ws ws ⟨m, .native program (x.letSite env).held, ws⟩
      (nextArgument setting m' ws spare.id (x.callSite env) (reversed'.map (·.2))
        (operands rest).value) := by
  induction rest generalizing L before reversed reversed' m m' program with
  | nil =>
    rw [List.append_nil] at hsplit
    have hbound : reversed.reverse.map (·.1) = x.names := by
      rw [List.map_reverse, hnames, List.reverse_reverse, hsplit, names]
    have hright : nextArgument setting m' ws spare.id (x.callSite env) (reversed'.map (·.2))
        (operands []).value =
        applyClosure setting m' ws spare.id (reversed'.reverse.map (·.2))
          (bodyContext x env spare.id) true := by
      rw [List.map_reverse]
      rfl
    rw [hright] at hboth ⊢
    exact corresponds_bound htwins hcontent hakin hbody hcaller
      (fun v hv => hparts v (List.mem_append_right _ hv)) (List.rel_reverse hreversed) hbound hprogram
      hm hboth
  | cons b rest ih =>
    have hb : b ∈ x.bindings := hsplit ▸ List.mem_append_right _ (List.mem_cons_self ..)
    have hsplit' : before ++ [b] ++ rest = x.bindings := by simpa using hsplit
    have hnew : b.name.id ∉ (reversed.map (·.1)).map Symbol.id := by
      rw [hnames, List.map_reverse, List.mem_reverse]
      exact id_not_mem_before hdistinct hsplit
    have hasked : program m.store =
        .eval b.init env { values := reversed.map (·.2) ++ (x.inits ++ x.exprs) } m.store
          (resumed fun v => letValues (v :: (reversed.map (·.2) ++ (x.inits ++ x.exprs))) env
            ((b.name, v) :: reversed) (rest.map fun b => (b.name, b.init)) >>=
              letBody env x.exprs) := by
      rw [hprogram, List.map_cons, letValues_cons hnew, Native.bind_assoc]
      rfl
    have hinit := hparts b.init (List.mem_append_left _ (List.mem_map_of_mem hb))
    rw [nextArgument_operands hstands hsplit] at hboth ⊢
    refine corresponds_asking hasked (fun _ _ => rfl) (workAlike_inits htwins hreversed.values
      ⟨before ++ [b], hsplit'⟩ hcaller _) trivial hakin hm hinit hboth.1 hboth.2 ?_
    intro L' a a' m₁ m₁' hle hvalue hm₁ hnow hstands' hnow'
    have hsymbols' : ∀ y ∈ x.names, L'.symbol y y := fun y hy => L.symbol_mono hle (hsymbols y hy)
    have hbound : Bindings L' ((b.name, a) :: reversed) ((b.name, a') :: reversed') :=
      .cons ⟨hsymbols' _ (List.mem_map_of_mem hb), hvalue⟩ (hreversed.mono hle)
    exact ih (hcaller.mono hle) (fun v hv => (hparts v hv).mono hle) hsymbols' hsplit' hbound
      (by simp [hnames]) rfl hm₁ hstands' ⟨hnow, hnow'⟩

end Loops

/-- The machine before the `let` and the machine before the application differ by the closure from when
it is made. -/
theorem corresponds_let (hlibrary : ∀ K, setting.library.Even K)
    (hmax : setting.maxDepth = none) (horder : m.InOrder (setting.bearing ws).caller.values)
    (hdistinct : Symbol.Distinct x.names) (hbody : x.body ≠ [])
    (hlet : Names setting.library m.store env x.letCell Forms.letForm)
    (hlambda : Names setting.library m.store env x.lambdaCell Forms.lambda)
    (hstands : Throughout setting ws (·.Stands x.letText) ⟨m, .eval (.pair x.letCell) env, ws⟩)
    (hstands' : Throughout setting ws (·.Stands x.callText)
      ⟨m, .eval (.pair x.callCell) env, ws⟩)
    (hexprs : ∀ v ∈ (x.closure env).body, m.Knows v) :
    Corresponds (horder.link hexprs) setting setting ws ws ⟨m, .eval (.pair x.letCell) env, ws⟩
      ⟨m, .eval (.pair x.callCell) env, ws⟩ := by
  have hallows (n : Nat) : setting.Allows n := fun limit hlimit => by simp [hmax] at hlimit
  obtain ⟨hparts, hnames⟩ := knows_parts horder hstands.now
  obtain ⟨m₁, heffects, hsame₁, hleft⟩ := proceeds_form hlet (hallows _) ws
  obtain ⟨m₂, hstore, hsymbols, houtput, hsame₂, hright⟩ :=
    proceeds_call hstands'.now hdistinct hbody hlambda (hallows _) ws
  have hm := horder.machine hexprs heffects hsame₁ hstore hsymbols houtput hsame₂
  have hsite : siteOf m.store x.letCell env = x.letSite env := hstands.now.siteOf_eq env
  have hprogram : Forms.letForm (m.store.rest x.letCell) env m₁.store =
      (letValues (x.inits ++ x.exprs) env [] x.pairs >>= letBody env x.exprs) m₁.store := by
    have hinits : x.pairs.map (·.2) = x.inits := by
      rw [pairs, inits, List.map_map]
      rfl
    rw [heffects.store, letForm_of_letLike (letLike hstands.now hbody hlet), hinits]
  have hcaller : (setting.bearing ws).caller.Alike (horder.link hexprs) (setting.bearing ws).caller :=
    ⟨horder.values hexprs horder.held, rfl⟩
  have hboth : Both setting ws x _ _ := ⟨hstands.of_proceeds hleft, hstands'.of_proceeds hright⟩
  rw [hsite] at hleft hboth
  refine .of_proceeds hleft hright ?_
  exact corresponds_inits (twins horder hstands.now hexprs) rfl
    ⟨(hlibrary _).alike fun _ => trivial, rfl⟩ hdistinct hbody hcaller
    (fun v hv => horder.alike hexprs (hparts v hv)) (fun y hy => horder.symbol hexprs (hnames y hy))
    (List.nil_append _) .nil rfl hprogram hm (hstands'.now.of_cells_eq (by rw [hstore]; rfl)) hboth

end State

open State

/-- `(let ((name init) ...) body ...)` does what `((lambda (name ...) body ...) init ...)` does: from any
machine in order, without a limit on depth, provided that either form stands while it is evaluated. Both
come to the same value or the same error and leave the same machine, up to the closure that the
application has made in place of the next one; or neither comes to an end. -/
theorem let_agrees_with_lambda (setting : Setting) (m : Machine) (env : FrameId)
    (ws : List Waiting) (x : BothForms) (hlibrary : ∀ K, setting.library.Even K) (hmax : setting.maxDepth = none)
    (horder : m.InOrder (setting.bearing ws).caller.values)
    (hdistinct : Symbol.Distinct x.names) (hbody : x.body ≠ [])
    (hlet : Names setting.library m.store env x.letCell Forms.letForm)
    (hlambda : Names setting.library m.store env x.lambdaCell Forms.lambda)
    (hstands : Throughout setting ws (·.Stands x.letText) ⟨m, .eval (.pair x.letCell) env, ws⟩)
    (hstands' : Throughout setting ws (·.Stands x.callText)
      ⟨m, .eval (.pair x.callCell) env, ws⟩) :
    (∃ result m₁ m₂,
      Finishes setting ws ⟨m, .eval (.pair x.letCell) env, ws⟩ result m₁ ∧
      Finishes setting ws ⟨m, .eval (.pair x.callCell) env, ws⟩
        (result.map (·.rename (·.past ⟨m.store.closures.size⟩))) m₂ ∧
      m₁.WithOneMore ⟨m.store.closures.size⟩ (x.closure env) m₂) ∨
    (∀ n, ¬ (after setting n ⟨m, .eval (.pair x.letCell) env, ws⟩).AnswersTo ws) ∧
      ∀ n, ¬ (after setting n ⟨m, .eval (.pair x.callCell) env, ws⟩).AnswersTo ws := by
  have hexprs : ∀ v ∈ (x.closure env).body, m.Knows v := fun v hv =>
    (BothForms.knows_parts horder hstands.now).1 v (List.mem_append_right _ hv)
  have hcorresponds := corresponds_let hlibrary hmax horder hdistinct hbody hlet hlambda hstands
    hstands' hexprs
  cases hcorresponds with
  | @finish L' a b m₁ m₂ _ hleft hright hresult hmachine =>
    rw [Answer.eq_of_beside hresult] at hright
    exact .inl ⟨a, m₁, m₂, hleft, hright, hmachine.withOneMore⟩
  | endless hleft hright => exact .inr ⟨hleft, hright⟩

namespace Enclosing

open State

def symbols : SymbolTable :=
  ["let", "lambda", "define", "x", "y", "f"].foldl (fun t name => (t.intern name).2)
    (SymbolTable.withCapacity 15 none (fun _ => 0))

/-- Pair 6 is `(let ((x 1) (y 2)) (define f (lambda () x)) f)` and pair 16 is
`((lambda (x y) (define f (lambda () x)) f) 1 2)`; both share the list of the body. -/
def machine : Machine where
  store :=
    { cells := #[
        ⟨.symbol ⟨2, "define"⟩, .pair ⟨1⟩⟩, ⟨.symbol ⟨5, "f"⟩, .pair ⟨2⟩⟩, ⟨.pair ⟨3⟩, .nil⟩,
        ⟨.symbol ⟨1, "lambda"⟩, .pair ⟨4⟩⟩, ⟨.nil, .pair ⟨5⟩⟩, ⟨.symbol ⟨3, "x"⟩, .nil⟩,
        ⟨.symbol ⟨0, "let"⟩, .pair ⟨7⟩⟩, ⟨.pair ⟨8⟩, .pair ⟨14⟩⟩, ⟨.pair ⟨9⟩, .pair ⟨11⟩⟩,
        ⟨.symbol ⟨3, "x"⟩, .pair ⟨10⟩⟩, ⟨.int 1, .nil⟩, ⟨.pair ⟨12⟩, .nil⟩,
        ⟨.symbol ⟨4, "y"⟩, .pair ⟨13⟩⟩, ⟨.int 2, .nil⟩, ⟨.pair ⟨0⟩, .pair ⟨15⟩⟩,
        ⟨.symbol ⟨5, "f"⟩, .nil⟩,
        ⟨.pair ⟨17⟩, .pair ⟨21⟩⟩, ⟨.symbol ⟨1, "lambda"⟩, .pair ⟨18⟩⟩, ⟨.pair ⟨19⟩, .pair ⟨14⟩⟩,
        ⟨.symbol ⟨3, "x"⟩, .pair ⟨20⟩⟩, ⟨.symbol ⟨4, "y"⟩, .nil⟩, ⟨.int 1, .pair ⟨22⟩⟩,
        ⟨.int 2, .nil⟩]
      frames := #[⟨[(⟨0, "let"⟩, .form ⟨9, "let"⟩), (⟨1, "lambda"⟩, .form ⟨8, "lambda"⟩),
        (⟨2, "define"⟩, .form ⟨6, "define"⟩)], none⟩]
      closures := #[] }
  symbols := symbols
  calls := CallStack.empty
  depth := 0
  counters := none
  output := .silent

def setting : Setting := ⟨Standard.library, none, {}⟩

def forms : BothForms where
  letName := ⟨0, "let"⟩
  lambdaName := ⟨1, "lambda"⟩
  letCell := ⟨6⟩
  bindingsCell := ⟨7⟩
  callCell := ⟨16⟩
  lambdaCell := ⟨17⟩
  parametersCell := ⟨18⟩
  bindings := [⟨⟨3, "x"⟩, .int 1, ⟨8⟩, ⟨9⟩, ⟨10⟩, ⟨19⟩, ⟨21⟩⟩,
    ⟨⟨4, "y"⟩, .int 2, ⟨11⟩, ⟨12⟩, ⟨13⟩, ⟨20⟩, ⟨22⟩⟩]
  body := [⟨.pair ⟨0⟩, ⟨14⟩, ⟨14⟩⟩, ⟨.symbol ⟨5, "f"⟩, ⟨15⟩, ⟨15⟩⟩]

def evaluating (c : Nat) : State := ⟨machine, .eval (.pair ⟨c⟩) ⟨0⟩, []⟩

private theorem inOrder_symbols : symbols.InOrder := by
  have hfold (names : List String) (t : SymbolTable) (h : t.InOrder) :
      (names.foldl (fun t name => (t.intern name).2) t).InOrder := by
    induction names generalizing t with
    | nil => exact h
    | cons name names ih => exact ih _ (h.grows_intern name).1.inOrder
  exact hfold _ _ (SymbolTable.inOrder_withCapacity 15 none (fun _ => 0))

private theorem inOrder : machine.InOrder [] where
  symbols := inOrder_symbols
  cells := by decide +kernel
  frames := by decide +kernel
  parameters := by simp [machine]
  bodies := by simp [machine]
  calls := by simp [machine, CallStack.empty]
  held := by simp

theorem stand_while_running :
    ((after setting 60 (evaluating 6)).result?.isSome ∧
      ∀ k < 61, (after setting k (evaluating 6)).machine.store.Stands forms.letText) ∧
    (after setting 60 (evaluating 16)).result?.isSome ∧
      ∀ k < 61, (after setting k (evaluating 16)).machine.store.Stands forms.callText := by
  decide +kernel

end Enclosing

open State Enclosing in
/-- The hypotheses hold of the two forms of the machine. The procedure that they come to is closure 0
behind the `let` and closure 1 behind the application, whose own closure is 0. -/
theorem enclosing_forms_agree :
    ∃ m₁ m₂, Finishes setting [] (evaluating 6) (.ok (.closure ⟨0⟩)) m₁ ∧
      Finishes setting [] (evaluating 16) (.ok (.closure ⟨1⟩)) m₂ ∧
      m₁.WithOneMore ⟨0⟩ (forms.closure ⟨0⟩) m₂ := by
  obtain ⟨⟨hend, hstands⟩, hend', hstands'⟩ := stand_while_running
  obtain ⟨m, hfin, -⟩ : ∃ m, Finishes setting [] (evaluating 6) (.ok (.closure ⟨0⟩)) m ∧ () = () :=
    exists_finishes (fun _ => ()) 61 (by decide +kernel)
  have hdistinct : Symbol.Distinct forms.names := by
    rw [Symbol.Distinct]
    decide
  have hagree := let_agrees_with_lambda setting machine ⟨0⟩ [] forms
    (fun _ => Library.even_standard) rfl inOrder hdistinct (List.cons_ne_nil _ _)
    ⟨⟨0, "let"⟩, ⟨9, "let"⟩, rfl, rfl, rfl⟩ ⟨⟨1, "lambda"⟩, ⟨8, "lambda"⟩, rfl, rfl, rfl⟩
    (.of_moments hend hstands) (.of_moments hend' hstands')
  rcases hagree with ⟨result, m₁, m₂, hfin₁, hfin₂, hmore⟩ | ⟨hendless, -⟩
  · obtain ⟨rfl, rfl⟩ := hfin.unique hfin₁
    exact ⟨m₁, m₂, hfin₁, hfin₂, hmore⟩
  · obtain ⟨n, hanswers⟩ := hfin.exists_answersTo
    exact absurd hanswers (hendless n)

end MiniScheme
