import MiniScheme.Proofs.Alike.Native
import MiniScheme.Proofs.Native.Forms
/-! # Special forms are alike to themselves

Each form treats alike operands alike. Symbols are looked at only to compare them with each other, to
look them up and to show their names; the closures that forms make have a body, and parameters that
differ from each other.
-/
namespace MiniScheme

variable {K : Terms} {L L' : Link K} {α : Type} {P : Link K → α → α → Prop}

private theorem Symbol.same_comm (x y : Symbol) : x.same y = y.same x := by
  simp only [Symbol.same, Bool.beq_comm]

/-! Names that differ from each other. -/

private theorem Symbol.pairwise_cons_of_new {xs : List Symbol} {x : Symbol}
    (hnew : ¬ xs.any (fun y => y.same x) = true) (h : xs.Pairwise fun x y => x.same y = false) :
    (x :: xs).Pairwise fun x y => x.same y = false := by
  refine List.pairwise_cons.mpr ⟨?_, h⟩
  intro y hy
  rw [Symbol.same_comm, Bool.eq_false_iff]
  exact fun hsame => hnew (List.any_eq_true.mpr ⟨y, hy, hsame⟩)

private theorem Symbol.pairwise_reverse {xs : List Symbol}
    (h : xs.Pairwise fun x y => x.same y = false) :
    xs.reverse.Pairwise fun x y => x.same y = false := by
  rw [List.pairwise_reverse]
  exact h.imp fun hxy => by rw [Symbol.same_comm]; exact hxy

private theorem Link.any_same_eq (L : Link K) {xs ys : List Symbol}
    (h : List.Forall₂ L.symbol xs ys) {x y : Symbol} (hxy : L.symbol x y) :
    ys.any (fun z => z.same y) = xs.any (fun z => z.same x) := by
  induction h with
  | nil => rfl
  | cons hz _ ih => rw [List.any_cons, List.any_cons, L.same_eq hz hxy, ih]

private theorem Value.Alike.any_same_eq {v w : Value} (h : v.Alike L w) {x y : Symbol}
    (hxy : L.symbol x y) :
    w.asSymbol?.any (fun z => z.same y) = v.asSymbol?.any (fun z => z.same x) := by
  cases h with
  | symbol h => exact L.same_eq h hxy
  | @same v hfits =>
    cases v with
    | symbol z => exact hfits.elim
    | _ => rfl

abbrev Bindings (L : Link K) : List (Symbol × Value) → List (Symbol × Value) → Prop :=
  List.Forall₂ (Binding.Alike L)

theorem Bindings.mono (hle : L ≤ L') {bs bs' : List (Symbol × Value)} (h : Bindings L bs bs') :
    Bindings L' bs bs' :=
  h.imp fun _ _ => .mono hle

theorem Bindings.values {bs bs' : List (Symbol × Value)} (h : Bindings L bs bs') :
    Values L (bs.map (·.2)) (bs'.map (·.2)) :=
  List.rel_map (fun _ _ hb => hb.value) h

theorem Bindings.names_eq (hK : K.strict) {bs bs' : List (Symbol × Value)} (h : Bindings L bs bs') :
    bs'.map (·.1) = bs.map (·.1) := by
  induction h with
  | nil => rfl
  | cons hb _ ih => rw [List.map_cons, List.map_cons, ih, L.eq_of_strict hK hb.name]

private theorem Bindings.any_same_eq {bs bs' : List (Symbol × Value)} (h : Bindings L bs bs')
    {x y : Symbol} (hxy : L.symbol x y) :
    bs'.any (fun b => b.1.same y) = bs.any (fun b => b.1.same x) := by
  have hnames : List.Forall₂ L.symbol (bs.map (·.1)) (bs'.map (·.1)) :=
    List.rel_map (fun _ _ hb => hb.name) h
  have hany := L.any_same_eq hnames hxy
  rwa [List.any_map, List.any_map] at hany

/-- Parameters that differ from each other. -/
structure Formals.Parsed (L : Link K) (f f' : Formals) : Prop where
  alike : f.Alike L f'
  distinct : f.Distinct

open Native

namespace Forms

private theorem alike_bad (form reason : String) :
    (bad form reason : Native α).Alike L P (bad form reason) :=
  alike_fail (K.error_of_not_internal rfl)

private theorem alike_badValue (form reason : String) {v w : Value} (hv : v.Alike L w) :
    (badValue form reason v : Native α).Alike L P (badValue form reason w) := by
  refine alike_bind (alike_text hv) ?_
  rintro L' hle text _ rfl
  exact alike_bad _ _

private theorem alike_operandList (form : String) {v w : Value} (hv : v.Alike L w) :
    (operandList form v).Alike L Values (operandList form w) :=
  alike_elements hv fun _ _ _ _ _ => alike_bad _ _

private theorem alike_sequence {held held' : Held} (hheld : held.Alike L held') (env : FrameId)
    {body body' : List Value} (hbody : Values L body body') :
    (sequence held env body).Alike L Outcome.Alike (sequence held' env body') := by
  induction body generalizing L body' with
  | nil =>
    cases hbody
    exact alike_pure (.value (.same trivial))
  | cons expr body ih =>
    obtain _ | ⟨hexpr, hrest⟩ := hbody
    cases hrest with
    | nil => exact alike_pure (.tail hexpr env)
    | cons hnext hrest =>
      rw [sequence, sequence]
      refine alike_bind (alike_eval hexpr env hheld) ?_
      intro L' hle _ _ _
      exact ih (hheld.mono hle) (.cons (hnext.mono hle) (Values.mono hle hrest))

private theorem formalsWithin_alike (form : String) {s s' : Store} (hs : s.Alike L s') (steps : Nat)
    {reversed reversed' : List Symbol} (hreversed : List.Forall₂ L.symbol reversed reversed')
    (hdistinct : reversed.Pairwise fun x y => x.same y = false) {v w : Value} (hv : v.Alike L w) :
    Answer K.error (Formals.Parsed L) (formalsWithin s form steps reversed v)
      (formalsWithin s' form steps reversed' w) := by
  induction steps generalizing reversed reversed' v w with
  | zero => exact .error (K.error_of_not_internal rfl)
  | succ steps ih =>
    cases hv with
    | @symbol x y hx =>
      simp only [formalsWithin, L.any_same_eq hreversed hx, L.name_eq hx]
      split
      · exact .error (K.error_of_not_internal rfl)
      · next hfresh =>
        refine .ok ⟨.variadic (List.rel_reverse hreversed) hx, ?_⟩
        have hall := Symbol.pairwise_reverse (Symbol.pairwise_cons_of_new hfresh hdistinct)
        rwa [List.reverse_cons] at hall
    | @same v hfits =>
      cases v with
      | nil => exact .ok ⟨.fixed (List.rel_reverse hreversed), Symbol.pairwise_reverse hdistinct⟩
      | symbol x => exact hfits.elim
      | pair c =>
        have hfirst := hs.first c
        simp only [formalsWithin, Value.rename]
        generalize s.first c = first at hfirst
        generalize s'.first c = first' at hfirst
        cases hfirst with
        | symbol hx =>
          simp only [L.any_same_eq hreversed hx, L.name_eq hx]
          split
          · exact .error (K.error_of_not_internal rfl)
          · next hfresh => exact ih (.cons hx hreversed) (Symbol.pairwise_cons_of_new hfresh hdistinct) (hs.rest c)
        | @same first hfirst =>
          have htext := hs.text_eq (.same hfirst)
          cases first with
          | symbol x => exact hfirst.elim
          | _ =>
            simp only [Value.rename] at htext ⊢
            rw [htext]
            exact .error (K.error_of_not_internal rfl)
      | _ =>
        have htext := hs.text_eq (.same hfits)
        simp only [formalsWithin, Value.rename] at htext ⊢
        rw [htext]
        exact .error (K.error_of_not_internal rfl)

private theorem parseFormals_alike (form : String) {s s' : Store} (hs : s.Alike L s') {v w : Value}
    (hv : v.Alike L w) :
    Answer K.error (Formals.Parsed L) (parseFormals s form v) (parseFormals s' form w) := by
  unfold parseFormals
  rw [hs.cells.size_eq]
  exact formalsWithin_alike form hs _ .nil .nil hv

/-- Closures that exist and go together. -/
def Made (L : Link K) (c c' : ClosureId) : Prop := c' = K.closure c ∧ c.index < L.closures

private theorem alike_makeClosure (form : String) (name : Option String) {formals formals' : Value}
    (hformals : formals.Alike L formals') {body body' : List Value} (hbody : Values L body body')
    (env : FrameId) :
    (makeClosure form name formals body env).Alike L Made
      (makeClosure form name formals' body' env) := by
  unfold makeClosure
  rw [hbody.isEmpty_eq]
  split
  · exact alike_bad _ _
  · next hnonempty =>
    refine alike_bind (P := fun L => Answer K.error (Formals.Parsed L))
      (alike_read fun _ _ hs => parseFormals_alike form hs hformals) ?_
    intro L₁ hle₁ parsed parsed' hparsed
    refine alike_bind (alike_ofExcept hparsed) ?_
    intro L₂ hle₂ f f' hf
    refine alike_update L₂.adds_next ?_
    intro s s' hs
    have hclosure : Closure.Alike L₂ ⟨name, f, body, env⟩ ⟨name, f', body', env⟩ :=
      ⟨rfl, hf.alike, hf.distinct, Values.mono (hle₁.trans hle₂) hbody,
        by simpa using hnonempty, rfl⟩
    obtain ⟨hid, hlt, hstore⟩ := hs.newClosure hclosure
    exact ⟨⟨hid, hlt⟩, hstore⟩

theorem alike_lambda {operands operands' : Value} (h : operands.Alike L operands')
    (env : FrameId) : (lambda operands env).Alike L Outcome.Alike (lambda operands' env) := by
  refine alike_bind (alike_operandList _ h) ?_
  intro L' hle items items' hitems
  cases hitems with
  | nil => exact alike_bad _ _
  | cons hformals hbody =>
    refine alike_bind (alike_makeClosure _ _ hformals hbody env) ?_
    rintro L'' hle' c _ ⟨rfl, hc⟩
    exact alike_pure (.value (.same hc))

private theorem alike_nameIfSole {v w : Value} (hv : v.Alike L w) (name : String)
    {held held' : Held} (hheld : held.Alike L held') :
    (nameIfSole v name held).Alike L Same (nameIfSole w name held') := by
  cases hv with
  | symbol hx => exact alike_pure rfl
  | @same v hfits =>
    cases v with
    | closure c =>
      refine alike_bind (P := Same) (alike_read fun s s' hs => (hs.closure hfits).name.symm) ?_
      rintro L' hle known _ rfl
      split
      · refine alike_bind (alike_isSole c (hheld.mono hle)) ?_
        rintro L'' hle' sole _ rfl
        split
        · exact alike_change fun _ _ hs => hs.nameClosure c name
        · exact alike_pure rfl
      · exact alike_pure rfl
    | _ => exact alike_pure rfl

theorem alike_define {operands operands' : Value} (h : operands.Alike L operands')
    (env : FrameId) : (define operands env).Alike L Outcome.Alike (define operands' env) := by
  refine alike_bind (alike_operandList _ h) ?_
  intro L₁ hle₁ items items' hitems
  cases hitems with
  | nil => exact alike_bad _ _
  | @cons v w rest rest' hv hrest =>
    have hheld : Held.Alike L₁ { values := v :: rest } { values := w :: rest' } :=
      ⟨.cons hv hrest, rfl⟩
    cases hv with
    | @symbol x y hx =>
      obtain _ | ⟨hexpr, _ | _⟩ := hrest
      · dsimp only
        rw [L₁.name_eq hx]
        exact alike_bad _ _
      · refine alike_bind (alike_eval hexpr env hheld) ?_
        intro L₂ hle₂ v w hv
        rw [L₁.name_eq hx]
        refine alike_bind (alike_nameIfSole hv _ (hheld.mono hle₂)) ?_
        intro L₃ hle₃ _ _ _
        have hx₃ := L₁.symbol_mono (hle₂.trans hle₃) hx
        refine alike_bind (alike_change fun _ _ hs => hs.define env hx₃ (hv.mono hle₃)) ?_
        intro L₄ hle₄ _ _ _
        exact alike_pure (.value (.symbol (L₃.symbol_mono hle₄ hx₃)))
      · dsimp only
        rw [L₁.name_eq hx]
        exact alike_bad _ _
    | same hfits =>
      cases v with
      | symbol x => exact hfits.elim
      | pair signature =>
        refine alike_bind (alike_read fun _ _ hs => hs.first signature) ?_
        intro L₂ hle₂ first first' hfirst
        cases hfirst with
        | @symbol x y hx =>
          refine alike_bind (alike_read fun _ _ hs => hs.rest signature) ?_
          intro L₃ hle₃ formals formals' hformals
          rw [L₂.name_eq hx]
          refine alike_bind (alike_makeClosure _ _ hformals
            (Values.mono (hle₂.trans hle₃) hrest) env) ?_
          rintro L₄ hle₄ c _ ⟨rfl, hc⟩
          have hx₄ := L₂.symbol_mono (hle₃.trans hle₄) hx
          refine alike_bind (alike_change fun _ _ hs => hs.define env hx₄ (.same hc)) ?_
          intro L₅ hle₅ _ _ _
          exact alike_pure (.value (.symbol (L₄.symbol_mono hle₅ hx₄)))
        | @same first hfirst =>
          cases first with
          | symbol x => exact hfirst.elim
          | _ => exact alike_badValue _ _ (.same hfirst)
      | _ => exact alike_badValue _ _ (.same hfits)

private theorem alike_assignment (env : FrameId) {x y : Symbol} (hx : L.symbol x y) {v w : Value}
    (hv : v.Alike L w) :
    (assignment env x v).Alike L Outcome.Alike (assignment env y w) := by
  intro s s' hs
  obtain ⟨hresult, hstore⟩ := hs.assign env hx hv
  unfold assignment
  generalize s.assign env x v = assigned at hresult hstore
  generalize s'.assign env y w = assigned' at hresult hstore
  obtain ⟨result, t⟩ := assigned
  obtain ⟨result', t'⟩ := assigned'
  cases hresult with
  | ok h => exact .done (.refl L) hstore (.value (.same trivial))
  | error h => exact .fail (.refl L) hstore h

theorem alike_assign {operands operands' : Value} (h : operands.Alike L operands')
    (env : FrameId) : (assign operands env).Alike L Outcome.Alike (assign operands' env) := by
  rw [assign_eq, assign_eq]
  refine alike_bind (alike_operandList _ h) ?_
  intro L₁ hle₁ items items' hitems
  cases hitems with
  | nil => exact alike_bad _ _
  | @cons v w rest rest' hv hrest =>
    cases hv with
    | symbol hx =>
      obtain _ | ⟨hexpr, _ | _⟩ := hrest
      · exact alike_bad _ _
      · refine alike_bind (alike_eval hexpr env ⟨.cons (.symbol hx) (.cons hexpr .nil), rfl⟩) ?_
        intro L₂ hle₂ v w hv
        exact alike_assignment env (L₁.symbol_mono hle₂ hx) hv
      · exact alike_bad _ _
    | same hfits =>
      cases v with
      | symbol x => exact hfits.elim
      | _ =>
        obtain _ | ⟨hexpr, _ | _⟩ := hrest
        · exact alike_bad _ _
        · exact alike_badValue _ _ (.same hfits)
        · exact alike_bad _ _

private theorem alike_bindingsAfter (form : String) {reversed reversed' : List (Symbol × Value)}
    (hreversed : Bindings L reversed reversed') {vs ws : List Value} (hvs : Values L vs ws) :
    (bindingsAfter form reversed vs).Alike L Bindings (bindingsAfter form reversed' ws) := by
  induction vs generalizing L reversed reversed' ws with
  | nil =>
    cases hvs
    exact alike_pure (List.rel_reverse hreversed)
  | cons binding bindings ih =>
    obtain _ | ⟨hv, hrest⟩ := hvs
    rw [bindingsAfter, bindingsAfter]
    refine alike_bind (alike_elements hv fun _ hle _ _ _ => alike_badValue _ _ (hv.mono hle)) ?_
    intro L' hle items items' hitems
    have hmalformed := hv.mono hle
    cases hitems with
    | nil => exact alike_badValue _ _ hmalformed
    | @cons v w rest rest' hname hinit =>
      cases hname with
      | symbol hx =>
        obtain _ | ⟨hinit, _ | _⟩ := hinit
        · exact alike_badValue _ _ hmalformed
        · exact ih (.cons ⟨hx, hinit⟩ (hreversed.mono hle)) (Values.mono hle hrest)
        · exact alike_badValue _ _ hmalformed
      | same hfits =>
        cases v with
        | symbol x => exact hfits.elim
        | _ => obtain _ | ⟨_, _ | _⟩ := hinit <;> exact alike_badValue _ _ hmalformed

structure SplitLet (L : Link K) (parts parts' : List (Symbol × Value) × List Value) : Prop where
  bindings : Bindings L parts.1 parts'.1
  body : Values L parts.2 parts'.2

private theorem alike_splitLet (form : String) {operands operands' : Value}
    (h : operands.Alike L operands') :
    (splitLet form operands).Alike L SplitLet (splitLet form operands') := by
  refine alike_bind (alike_operandList _ h) ?_
  intro L₁ hle₁ items items' hitems
  obtain _ | ⟨hbindings, _ | ⟨hexpr, hbody⟩⟩ := hitems
  · exact alike_bad _ _
  · exact alike_bad _ _
  · refine alike_bind (alike_elements hbindings fun _ _ _ _ _ => alike_bad _ _) ?_
    intro L₂ hle₂ vs ws hvs
    refine alike_bind (alike_bindingsAfter form .nil hvs) ?_
    intro L₃ hle₃ bs bs' hbs
    exact alike_pure ⟨hbs, Values.mono (hle₂.trans hle₃) (.cons hexpr hbody)⟩

private theorem alike_letValues {held held' : List Value} (hheld : Values L held held')
    (env : FrameId) {reversed reversed' bindings bindings' : List (Symbol × Value)}
    (hreversed : Bindings L reversed reversed') (hbindings : Bindings L bindings bindings') :
    (letValues held env reversed bindings).Alike L Bindings
      (letValues held' env reversed' bindings') := by
  induction bindings generalizing L held held' reversed reversed' bindings' with
  | nil =>
    cases hbindings
    exact alike_pure (List.rel_reverse hreversed)
  | cons binding bindings ih =>
    obtain _ | ⟨hb, hrest⟩ := hbindings
    rw [letValues, letValues, hreversed.any_same_eq hb.name, L.name_eq hb.name]
    split
    · exact alike_bad _ _
    · refine alike_bind (alike_eval hb.value env ⟨hheld, rfl⟩) ?_
      intro L' hle v w hv
      exact ih (.cons hv (Values.mono hle hheld))
        (.cons ⟨L.symbol_mono hle hb.name, hv⟩ (hreversed.mono hle)) (Bindings.mono hle hrest)

private theorem alike_child (env : FrameId) :
    (Native.update fun s => s.child env).Alike L Same (Native.update fun s => s.child env) :=
  alike_update (.refl L) fun _ _ hs => ⟨(hs.newFrame _).1.symm, (hs.newFrame _).2⟩

private theorem alike_letBody (env : FrameId) {body body' : List Value}
    (hbody : Values L body body')
    {values values' : List (Symbol × Value)} (hvalues : Bindings L values values') :
    (letBody env body values).Alike L Outcome.Alike (letBody env body' values') := by
  refine alike_bind (alike_child env) ?_
  rintro L₁ hle₁ frame _ rfl
  refine alike_bind (alike_change fun _ _ hs => hs.defineAll frame (hvalues.mono hle₁)) ?_
  intro L₂ hle₂ _ _ _
  have hbody := Values.mono (hle₁.trans hle₂) hbody
  exact alike_sequence (Held.alike_mk hbody _) frame hbody

theorem alike_letForm {operands operands' : Value} (h : operands.Alike L operands')
    (env : FrameId) : (letForm operands env).Alike L Outcome.Alike (letForm operands' env) := by
  rw [letForm_eq, letForm_eq]
  refine alike_bind (alike_splitLet _ h) ?_
  rintro L₁ hle₁ ⟨bindings, body⟩ ⟨bindings', body'⟩ ⟨hbindings, hbody⟩
  refine alike_bind (alike_letValues (List.rel_append hbindings.values hbody) env .nil hbindings) ?_
  intro L₂ hle₂ values values' hvalues
  exact alike_letBody env (Values.mono hle₂ hbody) hvalues

private theorem alike_nestedFrames {held held' : List Value} (hheld : Values L held held')
    (scope : FrameId) {bindings bindings' : List (Symbol × Value)}
    (hbindings : Bindings L bindings bindings') :
    (nestedFrames held scope bindings).Alike L Same (nestedFrames held' scope bindings') := by
  induction bindings generalizing L held held' scope bindings' with
  | nil =>
    cases hbindings
    exact alike_pure rfl
  | cons binding bindings ih =>
    obtain _ | ⟨hb, hrest⟩ := hbindings
    rw [nestedFrames, nestedFrames]
    refine alike_bind (alike_eval hb.value scope ⟨hheld, rfl⟩) ?_
    intro L₁ hle₁ v w hv
    refine alike_bind (alike_child scope) ?_
    rintro L₂ hle₂ inner _ rfl
    have hx := L.symbol_mono (hle₁.trans hle₂) hb.name
    refine alike_bind (alike_change fun _ _ hs => hs.define inner hx (hv.mono hle₂)) ?_
    intro L₃ hle₃ _ _ _
    have hle := (hle₁.trans hle₂).trans hle₃
    exact ih (Values.mono hle hheld.tail) inner (Bindings.mono hle hrest)

theorem alike_letStar {operands operands' : Value} (h : operands.Alike L operands')
    (env : FrameId) : (letStar operands env).Alike L Outcome.Alike (letStar operands' env) := by
  rw [letStar_eq, letStar_eq]
  refine alike_bind (alike_splitLet _ h) ?_
  rintro L₁ hle₁ ⟨bindings, body⟩ ⟨bindings', body'⟩ ⟨hbindings, hbody⟩
  cases hbindings with
  | nil => exact alike_letBody env hbody .nil
  | @cons b b' bindings bindings' hb hrest =>
    have hheld : Values L₁ (bindings.map (·.2) ++ body) (bindings'.map (·.2) ++ body') :=
      List.rel_append (Bindings.values hrest) hbody
    refine alike_bind (alike_eval hb.value env ⟨.cons hb.value hheld, rfl⟩) ?_
    intro L₂ hle₂ v w hv
    refine alike_bind (alike_child env) ?_
    rintro L₃ hle₃ inner _ rfl
    have hx := L₁.symbol_mono (hle₂.trans hle₃) hb.name
    refine alike_bind (alike_change fun _ _ hs => hs.define inner hx (hv.mono hle₃)) ?_
    intro L₄ hle₄ _ _ _
    have hle := (hle₂.trans hle₃).trans hle₄
    refine alike_bind
      (alike_nestedFrames (Values.mono hle hheld) inner (Bindings.mono hle hrest)) ?_
    rintro L₅ hle₅ scope _ rfl
    have hbody := Values.mono (hle.trans hle₅) hbody
    exact alike_sequence (Held.alike_mk hbody _) scope hbody

theorem alike_quote {operands operands' : Value} (h : operands.Alike L operands')
    (env : FrameId) : (quote operands env).Alike L Outcome.Alike (quote operands' env) := by
  refine alike_bind (alike_operandList _ h) ?_
  intro L' hle items items' hitems
  obtain _ | ⟨hv, _ | _⟩ := hitems
  · exact alike_bad _ _
  · exact alike_pure (.value hv)
  · exact alike_bad _ _

theorem alike_conditional {operands operands' : Value} (h : operands.Alike L operands')
    (env : FrameId) :
    (conditional operands env).Alike L Outcome.Alike (conditional operands' env) := by
  refine alike_bind (alike_operandList _ h) ?_
  intro L₁ hle₁ items items' hitems
  obtain _ | ⟨htest, _ | ⟨hthen, _ | ⟨helse, _ | _⟩⟩⟩ := hitems
  · exact alike_bad _ _
  · exact alike_bad _ _
  · refine alike_bind (alike_eval htest env ⟨.cons htest (.cons hthen .nil), rfl⟩) ?_
    intro L₂ hle₂ v w hv
    rw [hv.isTrue_eq]
    split
    · exact alike_pure (.tail (hthen.mono hle₂) env)
    · exact alike_pure (.value (.same trivial))
  · refine alike_bind
      (alike_eval htest env ⟨.cons htest (.cons hthen (.cons helse .nil)), rfl⟩) ?_
    intro L₂ hle₂ v w hv
    rw [hv.isTrue_eq]
    split
    · exact alike_pure (.tail (hthen.mono hle₂) env)
    · exact alike_pure (.tail (helse.mono hle₂) env)
  · exact alike_bad _ _

theorem alike_begin {operands operands' : Value} (h : operands.Alike L operands')
    (env : FrameId) : (begin operands env).Alike L Outcome.Alike (begin operands' env) := by
  refine alike_bind (alike_operandList _ h) ?_
  intro L' hle items items' hitems
  exact alike_sequence (Held.alike_mk hitems _) env hitems

private theorem alike_clauses {all all' : List Value} (hall : Values L all all') {x y : Symbol}
    (hx : L.symbol x y) (env : FrameId) {rest rest' : List Value} (hrest : Values L rest rest') :
    (clauses all x env rest).Alike L Outcome.Alike (clauses all' y env rest') := by
  induction rest generalizing L all all' x y rest' with
  | nil =>
    cases hrest
    exact alike_pure (.value (.same trivial))
  | cons clause rest ih =>
    obtain _ | ⟨hclause, hrest⟩ := hrest
    rw [clauses, clauses]
    refine alike_bind
      (alike_elements hclause fun _ hle _ _ _ => alike_badValue _ _ (hclause.mono hle)) ?_
    intro L₁ hle₁ parts parts' hparts
    have hx₁ := L.symbol_mono hle₁ hx
    have hall₁ := Values.mono hle₁ hall
    have hheld {values values' : List Value} (h : Values L₁ values values') :
        Held.Alike L₁ { values := values ++ all, frames := [env] }
          { values := values' ++ all', frames := [env] } :=
      ⟨List.rel_append h hall₁, rfl⟩
    cases hparts with
    | nil => exact alike_bad _ _
    | @cons test test' body body' htest hbody =>
      dsimp only
      rw [htest.any_same_eq hx₁, Values.isEmpty_eq hrest, Values.isEmpty_eq hbody]
      split
      · split
        · exact alike_bad _ _
        split
        · exact alike_bad _ _
        · exact alike_sequence (hheld (.cons htest hbody)) env hbody
      · refine alike_bind (alike_eval htest env (hheld (.cons htest hbody))) ?_
        intro L₂ hle₂ v w hv
        rw [hv.isTrue_eq]
        split
        · split
          · exact alike_pure (.value hv)
          · have hvalues := Values.mono hle₂ (hheld (.cons htest hbody)).values
            exact alike_sequence (Held.alike_mk (.cons hv hvalues) _) env (Values.mono hle₂ hbody)
        · exact ih (Values.mono hle₂ hall₁) (L₁.symbol_mono hle₂ hx₁)
            (Values.mono (hle₁.trans hle₂) hrest)

theorem alike_cond {operands operands' : Value} (h : operands.Alike L operands')
    (env : FrameId) : (cond operands env).Alike L Outcome.Alike (cond operands' env) := by
  refine alike_bind (alike_operandList _ h) ?_
  intro L₁ hle₁ items items' hitems
  refine alike_bind (alike_intern _) ?_
  intro L₂ hle₂ x y hx
  have hitems := Values.mono hle₂ hitems
  exact alike_clauses hitems hx env hitems

private theorem alike_decide (decisive : Bool) {held held' : Held} (hheld : held.Alike L held')
    (env : FrameId) {exprs exprs' : List Value} (hexprs : Values L exprs exprs') :
    (decide decisive held env exprs).Alike L Outcome.Alike (decide decisive held' env exprs') := by
  induction exprs generalizing L exprs' with
  | nil =>
    cases hexprs
    exact alike_pure (.value (.same trivial))
  | cons expr exprs ih =>
    obtain _ | ⟨hexpr, hrest⟩ := hexprs
    cases hrest with
    | nil => exact alike_pure (.tail hexpr env)
    | cons hnext hrest =>
      rw [decide, decide]
      refine alike_bind (alike_eval hexpr env hheld) ?_
      intro L' hle v w hv
      rw [hv.isTrue_eq]
      split
      · exact alike_pure (.value hv)
      · exact ih (hheld.mono hle) (.cons (hnext.mono hle) (Values.mono hle hrest))

theorem alike_conjunction {operands operands' : Value} (h : operands.Alike L operands')
    (env : FrameId) :
    (conjunction operands env).Alike L Outcome.Alike (conjunction operands' env) := by
  refine alike_bind (alike_operandList _ h) ?_
  intro L' hle items items' hitems
  exact alike_decide false (Held.alike_mk hitems _) env hitems

theorem alike_disjunction {operands operands' : Value} (h : operands.Alike L operands')
    (env : FrameId) :
    (disjunction operands env).Alike L Outcome.Alike (disjunction operands' env) := by
  refine alike_bind (alike_operandList _ h) ?_
  intro L' hle items items' hitems
  exact alike_decide true (Held.alike_mk hitems _) env hitems

end Forms
end MiniScheme
