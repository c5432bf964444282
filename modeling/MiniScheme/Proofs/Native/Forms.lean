import MiniScheme.Proofs.Native.Rules
import MiniScheme.Proofs.Store.Frames
import MiniScheme.Forms.Binding
import MiniScheme.Forms.Control
/-! # Special forms keep to the rules

The forms keep to all rules that are lawful. Only `set!` changes a frame that is not given to it; its
last part, the assignment, has to be allowed for itself.
-/
namespace MiniScheme

/-- What a form leaves to be evaluated in its place. -/
def Rules.outcome (R : Rules) : Outcome → Prop
  | .value _ => True
  | .tail _ env => R.env env

variable {α : Type} {R : Rules} (h : R.Lawful)

namespace Native

include h

theorem obeys_text (v : Value) {free : Native String → Prop} :
    (Native.text v).Obeys R free always :=
  obeys_read h _

theorem obeys_list (items : List Value) {free : Native Value → Prop} :
    (Native.list items).Obeys R free always := by
  exact obeys_update fun store _ => ⟨h.of_frames_eq (store.frames_consAll _ _), trivial⟩

private theorem obeys_elements (v : Value) {improper : Value → Native (List Value)}
    {free : Native (List Value) → Prop} (himproper : ∀ tail, (improper tail).Obeys R free always) :
    (Native.elements v improper).Obeys R free always := by
  refine obeys_bind h (obeys_read h _) fun spine _ => ?_
  cases spine with
  | proper items => exact obeys_pure h trivial
  | improper items tail => exact himproper tail
  | circular => exact obeys_endless h

end Native

open Native

namespace Forms

variable {free : Native α → Prop} {post : α → Prop} {env : FrameId}

include h

private theorem obeys_bad (form reason : String) : (bad form reason : Native α).Obeys R free post :=
  obeys_fail h _

private theorem obeys_badValue (form reason : String) (v : Value) :
    (badValue form reason v : Native α).Obeys R free post :=
  obeys_bind h (obeys_text h v) fun _ _ => obeys_bad h _ _

private theorem obeys_operandList (form : String) (operands : Value)
    {free : Native (List Value) → Prop} :
    (operandList form operands).Obeys R free always :=
  obeys_elements h operands fun _ => obeys_bad h _ _

private theorem obeys_sequence (held : Held) (henv : R.env env) (body : List Value)
    {free : Native Outcome → Prop} : (sequence held env body).Obeys R free R.outcome := by
  fun_induction sequence held env body with
  | case1 => exact obeys_pure h trivial
  | case2 last => exact obeys_pure h henv
  | case3 expr next body ih =>
    exact obeys_bind h (obeys_eval h henv) fun _ _ => ih

private theorem obeys_makeClosure (form : String) (name : Option String) (formals : Value)
    (body : List Value) (env : FrameId) {free : Native ClosureId → Prop} :
    (makeClosure form name formals body env).Obeys R free always := by
  unfold makeClosure
  split
  · exact obeys_bad h _ _
  · refine obeys_bind h (obeys_read h _) fun parsed _ => ?_
    refine obeys_bind h (obeys_ofExcept h _) fun formals _ => ?_
    exact obeys_update fun store _ => ⟨h.of_frames_eq rfl, trivial⟩

theorem obeys_lambda (operands : Value) (env : FrameId) {free : Native Outcome → Prop} :
    (lambda operands env).Obeys R free R.outcome := by
  refine obeys_bind h (obeys_operandList h _ _) fun items _ => ?_
  split
  · exact obeys_bind h (obeys_makeClosure h _ _ _ _ _) fun _ _ => obeys_pure h trivial
  · exact obeys_bad h _ _

private theorem obeys_nameIfSole (v : Value) (name : String) (held : Held)
    {free : Native Unit → Prop} :
    (nameIfSole v name held).Obeys R free always := by
  unfold nameIfSole
  split
  · refine obeys_bind h (obeys_read h _) fun known _ => ?_
    split
    · refine obeys_bind h (obeys_isSole h _ _) fun sole _ => ?_
      split
      · exact obeys_change fun store _ => h.of_frames_eq rfl
      · exact obeys_pure h trivial
    · exact obeys_pure h trivial
  · exact obeys_pure h trivial

theorem obeys_define (operands : Value) (henv : R.env env) {free : Native Outcome → Prop} :
    (define operands env).Obeys R free R.outcome := by
  refine obeys_bind h (obeys_operandList h _ _) fun items _ => ?_
  split
  · exact obeys_bad h _ _
  · split
    · refine obeys_bind h (obeys_eval h henv) fun v _ => ?_
      refine obeys_bind h (obeys_nameIfSole h _ _ _) fun _ _ => ?_
      refine obeys_bind h (obeys_change fun store hgood => h.define _ v hgood henv) fun _ _ => ?_
      exact obeys_pure h trivial
    · exact obeys_bad h _ _
  · refine obeys_bind h (obeys_read h _) fun first _ => ?_
    split
    · refine obeys_bind h (obeys_read h _) fun formals _ => ?_
      refine obeys_bind h (obeys_makeClosure h _ _ _ _ _) fun c _ => ?_
      refine obeys_bind h (obeys_change fun store hgood => h.define _ _ hgood henv) fun _ _ => ?_
      exact obeys_pure h trivial
    · exact obeys_badValue h _ _ _
  · exact obeys_badValue h _ _ _

omit h

/-- The last part of `set!`, once the value is there. -/
def assignment (env : FrameId) (x : Symbol) (v : Value) : Native Outcome := fun store =>
  match store.assign env x v with
  | (.ok (), store) => .done (.value .unspecified) store
  | (.error e, store) => .fail e store

theorem assign_eq (operands : Value) (env : FrameId) :
    assign operands env = (do
      let items ← operandList "set!" operands
      match items with
      | [.symbol x, expr] =>
        let v ← Native.eval expr env { values := items }
        assignment env x v
      | [target, _] => badValue "set!" "not a variable: " target
      | _ => bad "set!" "expected (set! name expr)") := rfl

include h

theorem obeys_assign (operands : Value) (henv : R.env env) {free : Native Outcome → Prop}
    (hfree : ∀ x v, free (assignment env x v) ∨ (assignment env x v).Obeys R free R.outcome) :
    (assign operands env).Obeys R free R.outcome := by
  rw [assign_eq]
  refine obeys_bind h (obeys_operandList h _ _) fun items _ => ?_
  split
  · exact obeys_eval_bind h henv fun v => hfree _ v
  · exact obeys_badValue h _ _ _
  · exact obeys_bad h _ _

private theorem obeys_bindingsAfter (form : String) (reversed : List (Symbol × Value))
    (bindings : List Value) {free : Native (List (Symbol × Value)) → Prop} :
    (bindingsAfter form reversed bindings).Obeys R free always := by
  induction bindings generalizing reversed with
  | nil => exact obeys_pure h trivial
  | cons binding bindings ih =>
    refine obeys_bind h (obeys_elements h _ fun _ => obeys_badValue h _ _ _) fun items _ => ?_
    split
    · exact ih _
    · exact obeys_badValue h _ _ _

private theorem obeys_splitLet (form : String) (operands : Value)
    {free : Native (List (Symbol × Value) × List Value) → Prop} :
    (splitLet form operands).Obeys R free always := by
  refine obeys_bind h (obeys_operandList h _ _) fun items _ => ?_
  split
  · exact obeys_bad h _ _
  · exact obeys_bad h _ _
  · refine obeys_bind h (obeys_elements h _ fun _ => obeys_bad h _ _) fun bindings _ => ?_
    exact obeys_bind h (obeys_bindingsAfter h _ _ _) fun _ _ => obeys_pure h trivial

private theorem obeys_letValues (held : List Value) (henv : R.env env)
    (reversed bindings : List (Symbol × Value)) {free : Native (List (Symbol × Value)) → Prop} :
    (letValues held env reversed bindings).Obeys R free always := by
  induction bindings generalizing held reversed with
  | nil => exact obeys_pure h trivial
  | cons binding bindings ih =>
    rw [letValues]
    split
    · exact obeys_bad h _ _
    · exact obeys_bind h (obeys_eval h henv) fun _ _ => ih _ _

omit h

/-- The part of `let` behind its expressions. -/
def letBody (env : FrameId) (body : List Value) (values : List (Symbol × Value)) :
    Native Outcome := do
  let frame ← Native.update (fun store => store.child env)
  Native.change (fun store => store.defineAll frame values)
  sequence { values := body, frames := [frame] } frame body

theorem letForm_eq (operands : Value) (env : FrameId) :
    letForm operands env = (do
      let (bindings, body) ← splitLet "let" operands
      let values ← letValues (bindings.map (·.2) ++ body) env [] bindings
      letBody env body values) := rfl

include h

theorem change_defineAll (henv : R.env env) {store : Store} (hgood : R.good store)
    (values : List (Symbol × Value)) : R.change store (store.defineAll env values) := by
  induction values generalizing store with
  | nil => exact h.refl store
  | cons binding values ih =>
    have hdefine := h.define binding.1 binding.2 hgood henv
    exact h.trans hdefine (ih (h.good_of_change hgood hdefine))

theorem obeys_letBody (env : FrameId) (body : List Value) (values : List (Symbol × Value))
    {free : Native Outcome → Prop} : (letBody env body values).Obeys R free R.outcome := by
  refine obeys_bind h (obeys_update fun store hgood => h.child env hgood) fun frame hframe => ?_
  refine obeys_bind h
    (obeys_change fun store hgood => change_defineAll h hframe hgood values) fun _ _ => ?_
  exact obeys_sequence h _ hframe body

theorem obeys_letForm (operands : Value) (henv : R.env env) {free : Native Outcome → Prop} :
    (letForm operands env).Obeys R free R.outcome := by
  rw [letForm_eq]
  refine obeys_bind h (obeys_splitLet h _ _) fun parts _ => ?_
  refine obeys_bind h (obeys_letValues h _ henv _ _) fun values _ => ?_
  exact obeys_letBody h env parts.2 values

private theorem obeys_nestedFrames (held : List Value) {scope : FrameId} (hscope : R.env scope)
    (bindings : List (Symbol × Value)) {free : Native FrameId → Prop} :
    (nestedFrames held scope bindings).Obeys R free R.env := by
  induction bindings generalizing held scope with
  | nil => exact obeys_pure h hscope
  | cons binding bindings ih =>
    refine obeys_bind h (obeys_eval h hscope) fun v _ => ?_
    refine obeys_bind h (obeys_update fun store hgood => h.child scope hgood) fun inner hinner => ?_
    refine obeys_bind h (obeys_change fun store hgood => h.define _ v hgood hinner) fun _ _ => ?_
    exact ih _ hinner

omit h

/-- The part of `let*` behind its first expression, which has the value `v`. -/
def letStarBody (held : List Value) (env : FrameId) (x : Symbol) (v : Value)
    (bindings : List (Symbol × Value)) (body : List Value) : Native Outcome := do
  let inner ← Native.update (fun store => store.child env)
  Native.change (fun store => store.define inner x v)
  let scope ← nestedFrames held inner bindings
  sequence { values := body, frames := [scope] } scope body

theorem letStar_eq (operands : Value) (env : FrameId) :
    letStar operands env = (do
      match ← splitLet "let*" operands with
      | ([], body) => letBody env body []
      | ((x, init) :: bindings, body) =>
        let v ← Native.eval init env { values := init :: (bindings.map (·.2) ++ body) }
        letStarBody (bindings.map (·.2) ++ body) env x v bindings body) := by
  refine congrArg (splitLet "let*" operands >>= ·) (funext fun parts => ?_)
  obtain ⟨bindings, body⟩ := parts
  cases bindings with
  | nil => rfl
  | cons binding bindings =>
    simp only [nestedFrames, letStarBody, bind_assoc]
    rfl

include h

theorem obeys_letStarBody (held : List Value) (env : FrameId) (x : Symbol) (v : Value)
    (bindings : List (Symbol × Value)) (body : List Value) {free : Native Outcome → Prop} :
    (letStarBody held env x v bindings body).Obeys R free R.outcome := by
  refine obeys_bind h (obeys_update fun store hgood => h.child env hgood) fun inner hinner => ?_
  refine obeys_bind h (obeys_change fun store hgood => h.define x v hgood hinner) fun _ _ => ?_
  refine obeys_bind h (obeys_nestedFrames h held hinner bindings) fun scope hscope => ?_
  exact obeys_sequence h _ hscope body

theorem obeys_letStar (operands : Value) (henv : R.env env) {free : Native Outcome → Prop} :
    (letStar operands env).Obeys R free R.outcome := by
  rw [letStar_eq]
  refine obeys_bind h (obeys_splitLet h _ _) fun parts _ => ?_
  obtain ⟨bindings, body⟩ := parts
  cases bindings with
  | nil => exact obeys_letBody h env body []
  | cons binding bindings =>
    exact obeys_bind h (obeys_eval h henv) fun v _ => obeys_letStarBody h _ env _ v bindings body

theorem obeys_quote (operands : Value) (env : FrameId) {free : Native Outcome → Prop} :
    (quote operands env).Obeys R free R.outcome := by
  refine obeys_bind h (obeys_operandList h _ _) fun items _ => ?_
  split
  · exact obeys_pure h trivial
  · exact obeys_bad h _ _

theorem obeys_conditional (operands : Value) (henv : R.env env) {free : Native Outcome → Prop} :
    (conditional operands env).Obeys R free R.outcome := by
  refine obeys_bind h (obeys_operandList h _ _) fun items _ => ?_
  split
  · refine obeys_bind h (obeys_eval h henv) fun v _ => ?_
    split
    · exact obeys_pure h henv
    · exact obeys_pure h trivial
  · refine obeys_bind h (obeys_eval h henv) fun v _ => ?_
    split <;> exact obeys_pure h henv
  · exact obeys_bad h _ _

theorem obeys_begin (operands : Value) (henv : R.env env) {free : Native Outcome → Prop} :
    (begin operands env).Obeys R free R.outcome :=
  obeys_bind h (obeys_operandList h _ _) fun items _ => obeys_sequence h _ henv items

private theorem obeys_clauses (all : List Value) (otherwise : Symbol) (henv : R.env env)
    (rest : List Value) {free : Native Outcome → Prop} :
    (clauses all otherwise env rest).Obeys R free R.outcome := by
  induction rest with
  | nil => exact obeys_pure h trivial
  | cons clause rest ih =>
    refine obeys_bind h (obeys_elements h _ fun _ => obeys_badValue h _ _ _) fun parts _ => ?_
    split
    · exact obeys_bad h _ _
    · dsimp only
      split
      · split
        · exact obeys_bad h _ _
        split
        · exact obeys_bad h _ _
        · exact obeys_sequence h _ henv _
      · refine obeys_bind h (obeys_eval h henv) fun v _ => ?_
        split
        · split
          · exact obeys_pure h trivial
          · exact obeys_sequence h _ henv _
        · exact ih

theorem obeys_cond (operands : Value) (henv : R.env env) {free : Native Outcome → Prop} :
    (cond operands env).Obeys R free R.outcome := by
  refine obeys_bind h (obeys_operandList h _ _) fun items _ => ?_
  refine obeys_bind h (obeys_intern h _) fun otherwise _ => ?_
  exact obeys_clauses h items otherwise henv items

private theorem obeys_decide (decisive : Bool) (held : Held) (henv : R.env env) (exprs : List Value)
    {free : Native Outcome → Prop} : (decide decisive held env exprs).Obeys R free R.outcome := by
  fun_induction decide decisive held env exprs with
  | case1 => exact obeys_pure h trivial
  | case2 last => exact obeys_pure h henv
  | case3 expr next exprs ih =>
    refine obeys_bind h (obeys_eval h henv) fun v _ => ?_
    split
    · exact obeys_pure h trivial
    · exact ih

theorem obeys_conjunction (operands : Value) (henv : R.env env) {free : Native Outcome → Prop} :
    (conjunction operands env).Obeys R free R.outcome :=
  obeys_bind h (obeys_operandList h _ _) fun items _ => obeys_decide h _ _ henv items

theorem obeys_disjunction (operands : Value) (henv : R.env env) {free : Native Outcome → Prop} :
    (disjunction operands env).Obeys R free R.outcome :=
  obeys_bind h (obeys_operandList h _ _) fun items _ => obeys_decide h _ _ henv items

end Forms

end MiniScheme
