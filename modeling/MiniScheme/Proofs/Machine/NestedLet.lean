import MiniScheme.Proofs.Machine.FormEvaluation
import MiniScheme.Proofs.Native.TailPosition
import MiniScheme.Proofs.Store.Environments
/-! # `let*` and nested `let`

`let*` evaluates each expression in a frame inside the frame of the name before it. The same frames
arise from `let` forms nested in each other, one for each name, each the whole body of the one around
it: evaluation reaches an inner `let` in tail position, when the names before it are bound.
-/
namespace MiniScheme

namespace Store

/-- Following the value, one meets names with an expression each. -/
def ReadsBindings (s : Store) (v : Value) (bindings : List (Symbol × Value)) : Prop :=
  ∃ items, s.spine v = .proper items ∧
    List.Forall₂ (fun item b => s.spine item = .proper [.symbol b.1, b.2]) items bindings

/-- A new frame inside `e` that binds `x` to `v`. -/
def inFrame (s : Store) (e : FrameId) (x : Symbol) (v : Value) : Store :=
  (s.child e).2.define (s.child e).1 x v

private theorem rooted_of_lt {s : Store}
    (h : ∀ e < s.frames.size, ∀ parent ∈ (s.frame ⟨e⟩).parent, parent.index < e) : s.Rooted := by
  intro e parent hparent
  rcases Nat.lt_or_ge e.index s.frames.size with hlt | hge
  · exact h e.index hlt parent hparent
  · simp [frame, Array.getD_eq_getD_getElem?, Array.getElem?_eq_none hge] at hparent

private theorem lookup_inFrame {s : Store} {e : FrameId} {x y : Symbol} (h : s.Rooted)
    (he : e.index < s.frames.size) (hne : x.same y = false) (v : Value) :
    (s.inFrame e x v).lookup (s.child e).1 y = s.lookup e y := by
  have hchild : (s.child e).1.index < (s.child e).2.frames.size := by
    rw [size_child]
    exact Nat.lt_succ_self _
  rw [inFrame, lookup_define_of_ne hchild hne]
  exact h.lookup_child he y

end Store

/-- Pair `c` is a form like `let`: a name of the special form `rule`, then bindings and a body. -/
structure LetLike (library : Library) (store : Store) (env : FrameId) (c : CellId)
    (rule : NativeForm) (bindings : List (Symbol × Value)) (body : List Value) : Prop where
  names : Names library store env c rule
  operands : ∃ list, store.spine (store.rest c) = .proper (list :: body) ∧
    store.ReadsBindings list bindings
  body : body ≠ []

namespace Forms

variable {store : Store} {env : FrameId} {bindings : List (Symbol × Value)} {body : List Value}

private theorem elements_of_spine {v : Value} {items : List Value}
    (h : store.spine v = .proper items) (improper : Value → Native (List Value)) :
    Native.elements v improper store = .done items store := by
  simp only [Native.elements, Native.read, bind, h, Interaction.bind, pure]

private theorem bindingsAfter_of_reads {items : List Value}
    (h : List.Forall₂ (fun item b => store.spine item = .proper [.symbol b.1, b.2]) items bindings)
    (form : String) (reversed : List (Symbol × Value)) :
    bindingsAfter form reversed items store = .done (reversed.reverse ++ bindings) store := by
  induction h generalizing reversed with
  | nil => simp [bindingsAfter, pure]
  | @cons item b items bindings hitem _ ih =>
    have hnext : bindingsAfter form reversed (item :: items) store =
        bindingsAfter form (b :: reversed) items store := by
      simp only [bindingsAfter, bind, elements_of_spine hitem, Interaction.bind]
    rw [hnext, ih]
    simp

private theorem splitLet_of_reads {operands list : Value}
    (hspine : store.spine operands = .proper (list :: body))
    (hbindings : store.ReadsBindings list bindings) (hbody : body ≠ []) (form : String) :
    splitLet form operands store = .done (bindings, body) store := by
  obtain ⟨items, hlist, hitems⟩ := hbindings
  obtain ⟨expr, rest, rfl⟩ := List.exists_cons_of_ne_nil hbody
  simp only [splitLet, bind, operandList_of_spine hspine, Interaction.bind, elements_of_spine hlist,
    bindingList, bindingsAfter_of_reads hitems, List.reverse_nil, List.nil_append, pure]

/-- What is left of a `let*` whose names before `bindings` are bound, the last one in `scope`. -/
def starFrom (held : List Value) (scope : FrameId) (bindings : List (Symbol × Value))
    (body : List Value) : Native Outcome := do
  let scope ← nestedFrames held scope bindings
  sequence { values := body, frames := [scope] } scope body

private theorem starFrom_cons (held : List Value) (scope : FrameId) (x : Symbol) (init : Value)
    (bindings : List (Symbol × Value)) (body : List Value) (store : Store) :
    starFrom held scope ((x, init) :: bindings) body store =
      .eval init scope { values := held } store
        (State.resumed fun v => letStarBody held.tail scope x v bindings body) := by
  simp only [starFrom, nestedFrames, letStarBody, Native.bind_assoc]
  rfl

private theorem letStarBody_eq (held : List Value) (scope : FrameId) (x : Symbol) (v : Value)
    (bindings : List (Symbol × Value)) (body : List Value) (store : Store) :
    letStarBody held scope x v bindings body store =
      starFrom held (store.child scope).1 bindings body
        (store.inFrame scope x v) :=
  rfl

private theorem letStar_of_reads {c : CellId} {library : Library}
    (h : LetLike library store env c letStar
    bindings body) (hne : bindings ≠ []) :
    letStar (store.rest c) env store =
      starFrom (bindings.map (·.2) ++ body) env bindings body store := by
  obtain ⟨list, hspine, hbindings⟩ := h.operands
  obtain ⟨⟨x, init⟩, rest, rfl⟩ := List.exists_cons_of_ne_nil hne
  rw [letStar_eq, starFrom_cons]
  simp only [bind, splitLet_of_reads hspine hbindings h.body, Interaction.bind]
  rfl

theorem letStar_of_reads_nil {c : CellId} {library : Library}
    (h : LetLike library store env c letStar [] body) :
    letStar (store.rest c) env store = letBody env body [] store := by
  obtain ⟨list, hspine, hbindings⟩ := h.operands
  rw [letStar_eq]
  simp only [bind, splitLet_of_reads hspine hbindings h.body, Interaction.bind]

theorem letForm_of_letLike {c : CellId} {library : Library}
    (h : LetLike library store env c letForm bindings body) :
    letForm (store.rest c) env store =
      (letValues (bindings.map (·.2) ++ body) env [] bindings >>= letBody env body) store := by
  obtain ⟨list, hspine, hbindings⟩ := h.operands
  rw [letForm_eq]
  simp only [bind, splitLet_of_reads hspine hbindings h.body, Interaction.bind]

private theorem letForm_of_reads_nil {c : CellId} {library : Library}
    (h : LetLike library store env c letForm [] body) :
    letForm (store.rest c) env store = letBody env body [] store := by
  rw [letForm_of_letLike h]
  rfl

theorem letForm_of_reads {c : CellId} {library : Library} {x : Symbol} {init : Value}
    (h : LetLike library store env c letForm [(x, init)] body) :
    letForm (store.rest c) env store =
      .eval init env { values := init :: body } store
        (State.resumed fun v => letBody env body [(x, v)]) := by
  rw [letForm_of_letLike h, letValues_cons (by simp), Native.bind_assoc]
  rfl

end Forms

/-- One `let` of a nest: its pair and the only name it binds. -/
structure Layer where
  cell : CellId
  name : Symbol
  init : Value

namespace Layer

def binding (layer : Layer) : Symbol × Value := (layer.name, layer.init)

def bound (layer : Layer) (v : Value) : Symbol × Value := (layer.name, v)

/-- The body of the `let` around these layers: the next one, or the body proper. -/
def inside (body : List Value) : List Layer → List Value
  | [] => body
  | layer :: _ => [.pair layer.cell]

end Layer

namespace State

open Forms

variable {setting : Setting} {ws ws' : List Waiting} {m m' : Machine} {context context' : Held}
  {body : List Value}

/-- The layers stand from `m` on, where the first is up for evaluation in `scope`: it is a `let`
around the next and, as soon as its name is bound, the next ones stand in the new frame. -/
def NestStands (setting : Setting) (ws : List Waiting) (body : List Value) :
    List Layer → Machine → FrameId → Prop
  | [], _, _ => True
  | layer :: behind, m, scope =>
    LetLike setting.library m.store scope layer.cell letForm [layer.binding]
      (Layer.inside body behind) ∧
    ∀ v context m₁, Proceeds setting ws ⟨m, .eval (.pair layer.cell) scope, ws⟩
        ⟨m₁, .native (letBody scope (Layer.inside body behind) [layer.bound v]) context, ws⟩ →
      NestStands setting ws body behind { m₁ with store := m₁.store.inFrame scope layer.name v }
        (m₁.store.child scope).1

/-- From one layer on, `let*` and the nest come to the same. -/
theorem concur_layers {layer : Layer} {behind : List Layer} {program : Native Outcome}
    {held : List Value} {scope : FrameId}
    (hstands : NestStands setting ws' body (layer :: behind) m' scope)
    (h : Machine.Matches setting { m with store := m'.store } m')
    (hallows : setting.Allows m'.depth)
    (hprogram : program m.store =
      starFrom held scope ((layer :: behind).map Layer.binding) body m'.store) :
    Concur setting setting ws ws' ⟨m, .native program context, ws⟩
      ⟨m', .eval (.pair layer.cell) scope, ws'⟩ := by
  induction behind generalizing layer m m' program held scope context with
  | nil =>
    obtain ⟨hlet, -⟩ := hstands
    obtain ⟨m₁, heffects, hsame, hform⟩ := proceeds_form hlet.names hallows ws'
    refine .of_proceeds (.refl _) hform ?_
    refine concur_eval ((h.idle (.refl _) ⟨rfl, rfl⟩ heffects hsame).withStore m'.store)
      (hprogram.trans (starFrom_cons ..)) (by rw [heffects.store]; exact letForm_of_reads hlet) ?_
    intro v m₂ m₃ hm _ _
    exact concur_sequence (hm.withStore _) rfl (by rw [hm.store]; rfl)
  | cons next behind ih =>
    obtain ⟨hlet, hnext⟩ := hstands
    obtain ⟨m₁, heffects, hsame, hform⟩ := proceeds_form hlet.names hallows ws'
    refine .of_proceeds (.refl _) hform ?_
    refine concur_eval ((h.idle (.refl _) ⟨rfl, rfl⟩ heffects hsame).withStore m'.store)
      (hprogram.trans (starFrom_cons ..)) (by rw [heffects.store]; exact letForm_of_reads hlet) ?_
    intro v m₂ m₃ hm hsame' hreach
    refine .of_proceeds (.refl _) (proceeds_tail rfl) ?_
    have hdepth : m₃.depth = m'.depth := hsame'.2.trans hsame.2
    have hprogram' : letStarBody held.tail scope layer.name v ((next :: behind).map Layer.binding)
        body m₂.store = starFrom held.tail (m₃.store.child scope).1
          ((next :: behind).map Layer.binding) body (m₃.store.inFrame scope layer.name v) := by
      rw [letStarBody_eq, hm.store]
    exact ih (hnext v _ m₃ (hform.trans hreach)) (hm.withStore _) (hdepth ▸ hallows) hprogram'

/-- At the limit no form gets any further than another. -/
theorem concur_at_limit {c d : CellId} {env : FrameId} {rule rule' : NativeForm}
    (h : Names setting.library m.store env c rule) (h' : Names setting.library m.store env d rule')
    (hlimit : ¬ setting.Allows m.depth) :
    Concur setting setting ws ws' ⟨m, .eval (.pair c) env, ws⟩ ⟨m, .eval (.pair d) env, ws'⟩ := by
  obtain ⟨limit, hmax, hle⟩ : ∃ limit, setting.maxDepth = some limit ∧ limit ≤ m.depth := by
    simpa [Setting.Allows] using hlimit
  obtain ⟨m₁, heffects, hfin⟩ := finishes_form_of_limit h hmax hle ws
  obtain ⟨m₂, heffects', hfin'⟩ := finishes_form_of_limit h' hmax hle ws'
  exact .finish hfin hfin' (heffects.symm.trans heffects')

theorem concur_nested {c : CellId} {env : FrameId} {first : Layer} {layers : List Layer}
    (hstar : LetLike setting.library m.store env c letStar ((first :: layers).map Layer.binding)
      body)
    (hnest : NestStands setting ws' body (first :: layers) m env) :
    Concur setting setting ws ws' ⟨m, .eval (.pair c) env, ws⟩
      ⟨m, .eval (.pair first.cell) env, ws'⟩ := by
  by_cases hallows : setting.Allows m.depth
  · obtain ⟨m₁, heffects, hsame, hform⟩ := proceeds_form hstar.names hallows ws
    refine .of_proceeds hform (.refl _) ?_
    have hprogram := letStar_of_reads hstar (List.cons_ne_nil _ _)
    refine concur_layers hnest ?_ hallows (by rw [heffects.store]; exact hprogram)
    exact ((Machine.Matches.refl setting m).idle heffects hsame (.refl m) ⟨rfl, rfl⟩).withStore _
  · exact concur_at_limit hstar.names hnest.1.names hallows

theorem concur_empty {c d : CellId} {env : FrameId}
    (hstar : LetLike setting.library m.store env c letStar [] body)
    (hlet : LetLike setting.library m.store env d letForm [] body) :
    Concur setting setting ws ws' ⟨m, .eval (.pair c) env, ws⟩ ⟨m, .eval (.pair d) env, ws'⟩ := by
  by_cases hallows : setting.Allows m.depth
  · obtain ⟨m₁, heffects₁, hsame₁, hform₁⟩ := proceeds_form hstar.names hallows ws
    obtain ⟨m₂, heffects₂, hsame₂, hform₂⟩ := proceeds_form hlet.names hallows ws'
    have hmatches := (Machine.Matches.refl setting m).idle heffects₁ hsame₁ heffects₂ hsame₂
    have hseq : letStar (m.store.rest c) env m₁.store = letBody env body [] m.store := by
      rw [heffects₁.store]
      exact letStar_of_reads_nil hstar
    have hseq' : letForm (m.store.rest d) env m₂.store = letBody env body [] m.store := by
      rw [heffects₂.store]
      exact letForm_of_reads_nil hlet
    exact .of_proceeds hform₁ hform₂
      (concur_sequence (hmatches.withStore (m.store.child env).2) hseq hseq')
  · exact concur_at_limit hstar.names hlet.names hallows

end State

open State

/-- `let*` comes to what a nest of `let` forms comes to, one for each binding, and without bindings to
what the `let` without bindings comes to. The two finish with one result and the same effects, or
neither finishes, or the first thing in which they differ is whether somebody else holds a closure
that a definition is to name. -/
theorem letStar_agrees_with_nested_let {setting : Setting} (ws ws' : List Waiting) (m : Machine)
    (env : FrameId) (c : CellId) (body : List Value) :
    (∀ first layers,
      LetLike setting.library m.store env c Forms.letStar ((first :: layers).map Layer.binding) body →
      NestStands setting ws' body (first :: layers) m env →
      Concur setting setting ws ws' ⟨m, .eval (.pair c) env, ws⟩
        ⟨m, .eval (.pair first.cell) env, ws'⟩) ∧
    ∀ d, LetLike setting.library m.store env c Forms.letStar [] body →
      LetLike setting.library m.store env d Forms.letForm [] body →
      Concur setting setting ws ws' ⟨m, .eval (.pair c) env, ws⟩ ⟨m, .eval (.pair d) env, ws'⟩ :=
  ⟨fun _ _ => concur_nested, fun _ => concur_empty⟩

namespace Nesting

open State

def library : Library where
  forms := #[Forms.letForm, Forms.letStar, Forms.define, Forms.assign]

/-- Pair 0 is `(let* ((f p) (y (define q (let ((t f)) (set! f 0) t)))) q)`, where `p` is closure 0,
which has no name. Pair 22 is the nest of the same bindings around the same body. -/
def machine : Machine where
  store :=
    { cells := #[
        ⟨.symbol ⟨1, "let*"⟩, .pair ⟨1⟩⟩, ⟨.pair ⟨2⟩, .pair ⟨8⟩⟩, ⟨.pair ⟨4⟩, .pair ⟨3⟩⟩,
        ⟨.pair ⟨6⟩, .nil⟩, ⟨.symbol ⟨4, "f"⟩, .pair ⟨5⟩⟩, ⟨.closure ⟨0⟩, .nil⟩,
        ⟨.symbol ⟨5, "y"⟩, .pair ⟨7⟩⟩, ⟨.pair ⟨9⟩, .nil⟩, ⟨.symbol ⟨6, "q"⟩, .nil⟩,
        ⟨.symbol ⟨2, "define"⟩, .pair ⟨10⟩⟩, ⟨.symbol ⟨6, "q"⟩, .pair ⟨11⟩⟩, ⟨.pair ⟨12⟩, .nil⟩,
        ⟨.symbol ⟨0, "let"⟩, .pair ⟨13⟩⟩, ⟨.pair ⟨14⟩, .pair ⟨17⟩⟩, ⟨.pair ⟨15⟩, .nil⟩,
        ⟨.symbol ⟨7, "t"⟩, .pair ⟨16⟩⟩, ⟨.symbol ⟨4, "f"⟩, .nil⟩, ⟨.pair ⟨18⟩, .pair ⟨21⟩⟩,
        ⟨.symbol ⟨3, "set!"⟩, .pair ⟨19⟩⟩, ⟨.symbol ⟨4, "f"⟩, .pair ⟨20⟩⟩, ⟨.int 0, .nil⟩,
        ⟨.symbol ⟨7, "t"⟩, .nil⟩,
        ⟨.symbol ⟨0, "let"⟩, .pair ⟨23⟩⟩, ⟨.pair ⟨24⟩, .pair ⟨25⟩⟩, ⟨.pair ⟨4⟩, .nil⟩,
        ⟨.pair ⟨26⟩, .nil⟩, ⟨.symbol ⟨0, "let"⟩, .pair ⟨27⟩⟩, ⟨.pair ⟨28⟩, .pair ⟨8⟩⟩,
        ⟨.pair ⟨6⟩, .nil⟩]
      frames := #[⟨[(⟨0, "let"⟩, .form ⟨0, "let"⟩), (⟨1, "let*"⟩, .form ⟨1, "let*"⟩),
        (⟨2, "define"⟩, .form ⟨2, "define"⟩), (⟨3, "set!"⟩, .form ⟨3, "set!"⟩)], none⟩]
      closures := #[⟨none, .fixed [], [.int 1], ⟨0⟩⟩] }
  symbols := SymbolTable.empty
  calls := CallStack.empty
  depth := 0
  counters := none
  output := .silent

def setting : Setting := ⟨library, none, {}⟩

def evaluating (c : Nat) : State := ⟨machine, .eval (.pair ⟨c⟩) ⟨0⟩, []⟩

def layers : List Layer :=
  [⟨⟨22⟩, ⟨4, "f"⟩, .closure ⟨0⟩⟩, ⟨⟨26⟩, ⟨5, "y"⟩, .pair ⟨9⟩⟩]

/-- The cells are as they were and, seen from frame 0, so is `let`. -/
def Unchanged (s : Store) : Prop :=
  s.cells = machine.store.cells ∧ s.lookup ⟨0⟩ ⟨0, "let"⟩ = .ok (.form ⟨0, "let"⟩) ∧
    0 < s.frames.size ∧ ∀ e < s.frames.size, ∀ parent ∈ (s.frame ⟨e⟩).parent, parent.index < e

instance (s : Store) : Decidable (Unchanged s) :=
  inferInstanceAs (Decidable (_ ∧ _ ∧ _ ∧ ∀ e < s.frames.size,
    ∀ parent ∈ (s.frame ⟨e⟩).parent, parent.index < e))

theorem unchanged_while_running :
    (∀ n < 60, (after setting n (evaluating 22)).waiting.isEmpty →
      Unchanged (after setting n (evaluating 22)).machine.store) ∧
    (after setting 59 (evaluating 22)).result?.isSome := by
  decide +kernel

private theorem Unchanged.of_proceeds {control : Control} {m : Machine}
    (h : Proceeds setting [] (evaluating 22) ⟨m, control, []⟩) : Unchanged m.store := by
  exact h.of_moments (P := fun t => t.waiting.isEmpty → Unchanged t.machine.store)
    unchanged_while_running.2 unchanged_while_running.1 rfl

private theorem letLike_star : LetLike library machine.store ⟨0⟩ ⟨0⟩ Forms.letStar
    (layers.map Layer.binding) [.symbol ⟨6, "q"⟩] :=
  ⟨⟨⟨1, "let*"⟩, ⟨1, "let*"⟩, rfl, rfl, rfl⟩, ⟨.pair ⟨2⟩, rfl, _, rfl, .cons rfl (.cons rfl .nil)⟩,
    List.cons_ne_nil _ _⟩

private theorem letLike_outer : LetLike library machine.store ⟨0⟩ ⟨22⟩ Forms.letForm
    [(⟨4, "f"⟩, .closure ⟨0⟩)] [.pair ⟨26⟩] :=
  ⟨⟨⟨0, "let"⟩, ⟨0, "let"⟩, rfl, rfl, rfl⟩, ⟨.pair ⟨24⟩, rfl, _, rfl, .cons rfl .nil⟩,
    List.cons_ne_nil _ _⟩

private theorem letLike_inner {s : Store} {e : FrameId} (hcells : s.cells = machine.store.cells)
    (hlet : s.lookup e ⟨0, "let"⟩ = .ok (.form ⟨0, "let"⟩)) :
    LetLike library s e ⟨26⟩ Forms.letForm [(⟨5, "y"⟩, .pair ⟨9⟩)] [.symbol ⟨6, "q"⟩] := by
  obtain ⟨cells, frames, closures⟩ := s
  obtain rfl : cells = machine.store.cells := hcells
  exact ⟨⟨⟨0, "let"⟩, ⟨0, "let"⟩, rfl, hlet, rfl⟩, ⟨.pair ⟨28⟩, rfl, _, rfl, .cons rfl .nil⟩,
    List.cons_ne_nil _ _⟩

private theorem nestStands : NestStands setting [] [.symbol ⟨6, "q"⟩] layers machine ⟨0⟩ := by
  refine ⟨letLike_outer, fun v context m₁ h => ⟨?_, fun _ _ _ _ => trivial⟩⟩
  obtain ⟨hcells, hlet, hsize, hparents⟩ := Unchanged.of_proceeds h
  have hinner := Store.lookup_inFrame (Store.rooted_of_lt hparents) hsize
    (x := ⟨4, "f"⟩) (y := ⟨0, "let"⟩) rfl v
  exact letLike_inner hcells (hinner.trans hlet)

end Nesting

open State Nesting in
/-- The hypotheses hold of the two forms of the machine. -/
theorem nest_of_two_agrees : Concur setting setting [] [] (evaluating 0) (evaluating 22) :=
  (letStar_agrees_with_nested_let [] [] machine ⟨0⟩ ⟨0⟩ _).1 _ _ letLike_star nestStands

open State Nesting in
/-- The nest has let go of the outer `let` when `q` is defined, so that the procedure is named; the
`let*` form still holds it. -/
theorem nest_names_what_letStar_does_not :
    LetLike library machine.store ⟨0⟩ ⟨0⟩ Forms.letStar (layers.map Layer.binding)
      [.symbol ⟨6, "q"⟩] ∧
    NestStands setting [] [.symbol ⟨6, "q"⟩] layers machine ⟨0⟩ ∧
    ∃ m m', Finishes setting [] (evaluating 0) (.ok (.closure ⟨0⟩)) m ∧
      Finishes setting [] (evaluating 22) (.ok (.closure ⟨0⟩)) m' ∧
      (m.store.closure ⟨0⟩).name = none ∧ (m'.store.closure ⟨0⟩).name = some "q" := by
  obtain ⟨m, hfin, hnone⟩ : ∃ m, Finishes setting [] (evaluating 0) (.ok (.closure ⟨0⟩)) m ∧
      (m.store.closure ⟨0⟩).name = none :=
    exists_finishes (fun m => (m.store.closure ⟨0⟩).name) 60 (by decide +kernel)
  obtain ⟨m', hfin', hsome⟩ : ∃ m, Finishes setting [] (evaluating 22) (.ok (.closure ⟨0⟩)) m ∧
      (m.store.closure ⟨0⟩).name = some "q" :=
    exists_finishes (fun m => (m.store.closure ⟨0⟩).name) 60 (by decide +kernel)
  exact ⟨letLike_star, nestStands, m, m', hfin, hfin', hnone, hsome⟩

end MiniScheme
