import MiniScheme.Native.Basic
import MiniScheme.Proofs.Alike.Views
/-! # Alike native code

Two pieces of native code are alike if, on alike stores, they ask the same questions about alike values
and go on alike with alike answers, until they end alike. What they are given then may stand under a
later link; between two questions they only make closures. The relation is closed under sequencing, so
it is checked once for each piece of code.
-/
namespace MiniScheme

variable {K : Terms} {L L' : Link K} {α β : Type}

structure Held.Alike (L : Link K) (h h' : Held) : Prop where
  values : Values L h.values h'.values
  frames : h'.frames = h.frames

theorem Held.Alike.mono (hle : L ≤ L') {h h' : Held} (hh : h.Alike L h') : h.Alike L' h' :=
  ⟨hh.values.mono hle, hh.frames⟩

theorem Held.alike_mk {vs ws : List Value} (h : Values L vs ws) (frames : List FrameId) :
    Held.Alike L ⟨vs, frames⟩ ⟨ws, frames⟩ :=
  ⟨h, rfl⟩

inductive Outcome.Alike (L : Link K) : Outcome → Outcome → Prop
  | value {v w : Value} (h : v.Alike L w) : Alike L (.value v) (.value w)
  | tail {expr expr' : Value} (h : expr.Alike L expr') (env : FrameId) :
    Alike L (.tail expr env) (.tail expr' env)

/-- Results that are the same, whatever the link. -/
def Same (_ : Link K) (a b : α) : Prop := a = b

/-- Code that has got as far as to its next question, or to its end. -/
inductive Interaction.Alike (P : Link K → α → α → Prop) :
    Link K → Interaction α → Interaction α → Prop
  | done {L L' : Link K} {a b : α} {s s' : Store} (adds : L.Adds L') (store : s.Alike L' s')
    (result : P L' a b) : Alike P L (.done a s) (.done b s')
  | fail {L L' : Link K} {e : EvalError} {s s' : Store} (adds : L.Adds L')
    (store : s.Alike L' s') (error : K.error e) : Alike P L (.fail e s) (.fail e s')
  | endless {L L' : Link K} {s s' : Store} (adds : L.Adds L') (store : s.Alike L' s') :
    Alike P L (.endless s) (.endless s')
  | eval {L L' : Link K} {v v' : Value} {env : FrameId} {h h' : Held} {s s' : Store}
    {k k' : Except EvalError Value → Store → Interaction α} (adds : L.Adds L')
    (store : s.Alike L' s') (expr : v.Alike L' v') (held : h.Alike L' h')
    (resume : ∀ L'', L' ≤ L'' → ∀ a b, Answer K.error (Value.Alike L'') a b →
      ∀ s s', s.Alike L'' s' → Alike P L'' (k a s) (k' b s')) :
    Alike P L (.eval v env h s k) (.eval v' env h' s' k')
  | call {L L' : Link K} {v v' : Value} {vs vs' : List Value} {h h' : Held} {s s' : Store}
    {k k' : Except EvalError Value → Store → Interaction α} (adds : L.Adds L')
    (store : s.Alike L' s') (procedure : v.Alike L' v') (args : Values L' vs vs')
    (held : h.Alike L' h')
    (resume : ∀ L'', L' ≤ L'' → ∀ a b, Answer K.error (Value.Alike L'') a b →
      ∀ s s', s.Alike L'' s' → Alike P L'' (k a s) (k' b s')) :
    Alike P L (.call v vs h s k) (.call v' vs' h' s' k')
  | intern {L L' : Link K} {name : String} {s s' : Store}
    {k k' : Except EvalError Symbol → Store → Interaction α} (adds : L.Adds L')
    (store : s.Alike L' s')
    (resume : ∀ L'', L' ≤ L'' → ∀ a b, Answer K.error L''.symbol a b →
      ∀ s s', s.Alike L'' s' → Alike P L'' (k a s) (k' b s')) :
    Alike P L (.intern name s k) (.intern name s' k')
  | print {L L' : Link K} {text : String} {s s' : Store} {k k' : Store → Interaction α}
    (adds : L.Adds L') (store : s.Alike L' s')
    (resume : ∀ L'', L' ≤ L'' → ∀ s s', s.Alike L'' s' → Alike P L'' (k s) (k' s')) :
    Alike P L (.print text s k) (.print text s' k')
  | isSole {L L' : Link K} {c : ClosureId} {h h' : Held} {s s' : Store}
    {k k' : Bool → Store → Interaction α} (adds : L.Adds L') (store : s.Alike L' s')
    (held : h.Alike L' h')
    (resume : ∀ L'', L' ≤ L'' → ∀ answer s s', s.Alike L'' s' →
      Alike P L'' (k answer s) (k' answer s')) :
    Alike P L (.isSole c h s k) (.isSole (K.closure c) h' s' k')

variable {P : Link K → α → α → Prop} {Q : Link K → β → β → Prop}

namespace Interaction

theorem Alike.after (hadds : L.Adds L') {x y : Interaction α} (h : Alike P L' x y) :
    Alike P L x y := by
  cases h with
  | done adds store result => exact .done (hadds.trans adds) store result
  | fail adds store error => exact .fail (hadds.trans adds) store error
  | endless adds store => exact .endless (hadds.trans adds) store
  | eval adds store expr held resume => exact .eval (hadds.trans adds) store expr held resume
  | call adds store procedure args held resume =>
    exact .call (hadds.trans adds) store procedure args held resume
  | intern adds store resume => exact .intern (hadds.trans adds) store resume
  | print adds store resume => exact .print (hadds.trans adds) store resume
  | isSole adds store held resume => exact .isSole (hadds.trans adds) store held resume

private theorem Alike.bind {x y : Interaction α} {f g : α → Store → Interaction β}
    (h : Alike P L x y) (hfg : ∀ L', L ≤ L' → ∀ a b, P L' a b → ∀ s s', s.Alike L' s' →
      Alike Q L' (f a s) (g b s')) :
    Alike Q L (x.bind f) (y.bind g) := by
  induction h with
  | done adds store result => exact (hfg _ adds.le _ _ result _ _ store).after adds
  | fail adds store error => exact .fail adds store error
  | endless adds store => exact .endless adds store
  | eval adds store expr held _ ih =>
    exact .eval adds store expr held fun L'' hle a b hab s s' hs =>
      ih L'' hle a b hab s s' hs fun L₃ hle' => hfg L₃ ((adds.le.trans hle).trans hle')
  | call adds store procedure args held _ ih =>
    exact .call adds store procedure args held fun L'' hle a b hab s s' hs =>
      ih L'' hle a b hab s s' hs fun L₃ hle' => hfg L₃ ((adds.le.trans hle).trans hle')
  | intern adds store _ ih =>
    exact .intern adds store fun L'' hle a b hab s s' hs =>
      ih L'' hle a b hab s s' hs fun L₃ hle' => hfg L₃ ((adds.le.trans hle).trans hle')
  | print adds store _ ih =>
    exact .print adds store fun L'' hle s s' hs =>
      ih L'' hle s s' hs fun L₃ hle' => hfg L₃ ((adds.le.trans hle).trans hle')
  | isSole adds store held _ ih =>
    exact .isSole adds store held fun L'' hle answer s s' hs =>
      ih L'' hle answer s s' hs fun L₃ hle' => hfg L₃ ((adds.le.trans hle).trans hle')

private theorem alike_ofExcept {a b : Except EvalError α} (hab : Answer K.error (P L) a b)
    {s s' : Store} (hs : s.Alike L s') : Alike P L (ofExcept a s) (ofExcept b s') := by
  cases hab with
  | ok h => exact .done (.refl L) hs h
  | error h => exact .fail (.refl L) hs h

end Interaction

/-- Code is alike from alike stores on. -/
def Native.Alike (L : Link K) (P : Link K → α → α → Prop) (x y : Native α) : Prop :=
  ∀ s s', s.Alike L s' → Interaction.Alike P L (x s) (y s')

namespace Native

theorem alike_bind {x y : Native α} {f g : α → Native β} (hx : x.Alike L P y)
    (hfg : ∀ L', L ≤ L' → ∀ a b, P L' a b → (f a).Alike L' Q (g b)) :
    (x >>= f).Alike L Q (y >>= g) :=
  fun s s' hs => (hx s s' hs).bind fun L' hle a b hab => hfg L' hle a b hab

theorem alike_pure {a b : α} (h : P L a b) : (pure a : Native α).Alike L P (pure b) :=
  fun _ _ hs => .done (.refl L) hs h

theorem alike_fail {e : EvalError} (he : K.error e) :
    (Native.fail e : Native α).Alike L P (Native.fail e) :=
  fun _ _ hs => .fail (.refl L) hs he

theorem alike_endless : (Native.endless : Native α).Alike L P Native.endless :=
  fun _ _ hs => .endless (.refl L) hs

theorem alike_read {f g : Store → α} (h : ∀ s s', s.Alike L s' → P L (f s) (g s')) :
    (Native.read f).Alike L P (Native.read g) :=
  fun s s' hs => .done (.refl L) hs (h s s' hs)

theorem alike_change {f g : Store → Store} (h : ∀ s s', s.Alike L s' → (f s).Alike L (g s')) :
    (Native.change f).Alike L Same (Native.change g) :=
  fun s s' hs => .done (.refl L) (h s s' hs) rfl

theorem alike_update {f g : Store → α × Store} (hadds : L.Adds L')
    (h : ∀ s s', s.Alike L s' → P L' (f s).1 (g s').1 ∧ (f s).2.Alike L' (g s').2) :
    (Native.update f).Alike L P (Native.update g) :=
  fun s s' hs => .done hadds (h s s' hs).2 (h s s' hs).1

theorem alike_ofExcept {a b : Except EvalError α} (h : Answer K.error (P L) a b) :
    (Native.ofExcept a).Alike L P (Native.ofExcept b) :=
  fun _ _ hs => Interaction.alike_ofExcept h hs

theorem alike_eval {v w : Value} (hv : v.Alike L w) (env : FrameId) {held held' : Held}
    (hheld : held.Alike L held') :
    (Native.eval v env held).Alike L Value.Alike (Native.eval w env held') :=
  fun _ _ hs => .eval (.refl L) hs hv hheld fun _ _ _ _ hab _ _ hs =>
    Interaction.alike_ofExcept hab hs

theorem alike_call {v w : Value} {vs ws : List Value} (hv : v.Alike L w) (hvs : Values L vs ws)
    {held held' : Held} (hheld : held.Alike L held') :
    (Native.call v vs held).Alike L Value.Alike (Native.call w ws held') :=
  fun _ _ hs => .call (.refl L) hs hv hvs hheld fun _ _ _ _ hab _ _ hs =>
    Interaction.alike_ofExcept hab hs

theorem alike_intern (name : String) :
    (Native.intern name).Alike L Link.symbol (Native.intern name) :=
  fun _ _ hs => .intern (.refl L) hs fun _ _ _ _ hab _ _ hs => Interaction.alike_ofExcept hab hs

theorem alike_print (text : String) : (Native.print text).Alike L Same (Native.print text) :=
  fun _ _ hs => .print (.refl L) hs fun _ _ _ _ hs => .done (.refl _) hs rfl

theorem alike_isSole (c : ClosureId) {held held' : Held} (hheld : held.Alike L held') :
    (Native.isSole c held).Alike L Same (Native.isSole (K.closure c) held') :=
  fun _ _ hs => .isSole (.refl L) hs hheld fun _ _ _ _ _ hs => .done (.refl _) hs rfl

theorem alike_text {v w : Value} (hv : v.Alike L w) :
    (Native.text v).Alike L Same (Native.text w) :=
  alike_read fun _ _ hs => (hs.text_eq hv).symm

theorem alike_list {vs ws : List Value} (hvs : Values L vs ws) :
    (Native.list vs).Alike L Value.Alike (Native.list ws) :=
  alike_update (.refl L) fun _ _ hs => hs.list hvs

theorem alike_elements {v w : Value} (hv : v.Alike L w)
    {improper improper' : Value → Native (List Value)}
    (h : ∀ L', L ≤ L' → ∀ tail tail', tail.Alike L' tail' →
      (improper tail).Alike L' Values (improper' tail')) :
    (Native.elements v improper).Alike L Values (Native.elements w improper') := by
  refine alike_bind (P := Spine.Alike) (alike_read fun _ _ hs => hs.spine hv) ?_
  intro L' hle spine spine' hspine
  cases hspine with
  | proper h => exact alike_pure h
  | improper _ htail => exact h L' hle _ _ htail
  | circular => exact alike_endless

end Native

/-- The same native code, alike in both libraries, wherever the arguments are as many as the procedure
accepts. -/
structure Library.Alike (K : Terms) (l l' : Library) : Prop where
  procedure {L : Link K} {b : Builtin} {args args' : List Value} (hb : K.builtin b)
    (hargs : Values L args args') (haccepts : b.arity.accepts args.length = true) :
    (l.procedure b args).Alike L Value.Alike (l'.procedure b args')
  form {L : Link K} {f : SpecialForm} {operands operands' : Value} (hf : K.form f)
    (hoperands : operands.Alike L operands') (env : FrameId) :
    (l.form f operands env).Alike L Outcome.Alike (l'.form f operands' env)

end MiniScheme
