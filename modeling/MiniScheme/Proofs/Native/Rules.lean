import MiniScheme.Native.Basic
/-! # Rules for native code

What native code does shows in its questions and in the stores that it leaves. `Obeys` says that code
keeps to given rules at every such point, whatever the answers and the stores it is given then. It is
closed under sequencing, so that rules are checked once for each piece of code.
-/
namespace MiniScheme

/-- The stores that code may run on, the changes it may make to them and the frames where it may
have something evaluated. -/
structure Rules where
  good : Store → Prop
  change : Store → Store → Prop
  env : FrameId → Prop

namespace Rules

/-- The rules can be followed step by step. They leave pairs and closures alone, and always allow a
new frame and what happens there. -/
structure Lawful (R : Rules) : Prop where
  good_of_change {s s' : Store} : R.good s → R.change s s' → R.good s'
  trans {s s' s'' : Store} : R.change s s' → R.change s' s'' → R.change s s''
  of_frames_eq {s s' : Store} : s'.frames = s.frames → R.change s s'
  child {s : Store} (e : FrameId) : R.good s → R.change s (s.child e).2 ∧ R.env (s.child e).1
  define {s : Store} {e : FrameId} (x : Symbol) (v : Value) : R.good s → R.env e →
    R.change s (s.define e x v)

theorem Lawful.refl {R : Rules} (h : R.Lawful) (s : Store) : R.change s s := h.of_frames_eq rfl

end Rules

variable {α β : Type} {R : Rules} {free : Native α → Prop} {post : α → Prop}

namespace Interaction

private theorem bind_assoc {γ : Type} (x : Interaction α) (f : α → Store → Interaction β)
    (g : β → Store → Interaction γ) :
    (x.bind f).bind g = x.bind (fun a store => (f a store).bind g) := by
  induction x with
  | done a store => rfl
  | fail e store => rfl
  | endless store => rfl
  | eval expr env held store resume ih => simp only [bind, ih]
  | call procedure args held store resume ih => simp only [bind, ih]
  | intern name store resume ih => simp only [bind, ih]
  | print text store resume ih => simp only [bind, ih]
  | isSole c held store resume ih => simp only [bind, ih]

/-- From the store `start` on, code keeps to the rules and ends with a result as `post` says. The
errors of what it asked for are handed on at once. After an evaluation, code of the kind `free` may
take over. -/
def Obeys (R : Rules) (free : Native α → Prop) (post : α → Prop) (start : Store) :
    Interaction α → Prop
  | done a store => R.change start store ∧ post a
  | fail _ store => R.change start store
  | endless store => R.change start store
  | eval _ env _ store resume =>
    R.change start store ∧ R.env env ∧ (∀ e store, resume (.error e) store = .fail e store) ∧
      ∀ v, free (resume (.ok v)) ∨
        ∀ store, R.good store → (resume (.ok v) store).Obeys R free post store
  | call _ _ _ store resume =>
    R.change start store ∧ (∀ e store, resume (.error e) store = .fail e store) ∧
      ∀ v store, R.good store → (resume (.ok v) store).Obeys R free post store
  | intern _ store resume =>
    R.change start store ∧
      ∀ answer store, R.good store → (resume answer store).Obeys R free post store
  | print _ store resume =>
    R.change start store ∧ ∀ store, R.good store → (resume store).Obeys R free post store
  | isSole _ _ store resume =>
    R.change start store ∧
      ∀ answer store, R.good store → (resume answer store).Obeys R free post store

theorem Obeys.after (h : R.Lawful) {start store : Store} (hchange : R.change start store)
    {x : Interaction α} (hx : x.Obeys R free post store) : x.Obeys R free post start := by
  cases x with
  | done a s => exact ⟨h.trans hchange hx.1, hx.2⟩
  | fail e s => exact h.trans hchange hx
  | endless s => exact h.trans hchange hx
  | eval expr env held s resume => exact ⟨h.trans hchange hx.1, hx.2⟩
  | call procedure args held s resume => exact ⟨h.trans hchange hx.1, hx.2⟩
  | intern name s resume => exact ⟨h.trans hchange hx.1, hx.2⟩
  | print text s resume => exact ⟨h.trans hchange hx.1, hx.2⟩
  | isSole c held s resume => exact ⟨h.trans hchange hx.1, hx.2⟩

end Interaction

def always (_ : α) : Prop := True

namespace Native

theorem bind_assoc {γ : Type} (x : Native α) (f : α → Native β) (g : β → Native γ) :
    x >>= f >>= g = x >>= fun a => f a >>= g :=
  funext fun store => (x store).bind_assoc f g

def never (_ : Native α) : Prop := False

/-- Code keeps to the rules on every store that it may run on. -/
def Obeys (R : Rules) (free : Native α → Prop) (post : α → Prop) (x : Native α) : Prop :=
  ∀ store, R.good store → (x store).Obeys R free post store

theorem obeys_bind (h : R.Lawful) {x : Native α} {f : α → Native β} {free : Native β → Prop}
    {post' : β → Prop} (hx : x.Obeys R never post) (hf : ∀ a, post a → (f a).Obeys R free post') :
    (x >>= f).Obeys R free post' := by
  have hbind (i : Interaction α) (start : Store) (hstart : R.good start)
      (hi : i.Obeys R never post start) : (i.bind f).Obeys R free post' start := by
    induction i generalizing start with
    | done a store =>
      obtain ⟨hchange, ha⟩ := hi
      exact (hf a ha store (h.good_of_change hstart hchange)).after h hchange
    | fail e store => exact hi
    | endless store => exact hi
    | eval expr env held store resume ih =>
      obtain ⟨hchange, henv, herror, hok⟩ := hi
      refine ⟨hchange, henv, ?_, ?_⟩
      · intro e store
        exact congrArg (fun i => Interaction.bind i f) (herror e store)
      · intro v
        exact .inr fun store hgood =>
          ih (.ok v) store store hgood ((hok v).resolve_left id store hgood)
    | call procedure args held store resume ih =>
      obtain ⟨hchange, herror, hok⟩ := hi
      refine ⟨hchange, ?_, fun v store hgood => ih (.ok v) store store hgood (hok v store hgood)⟩
      intro e store
      exact congrArg (fun i => Interaction.bind i f) (herror e store)
    | intern name store resume ih =>
      exact ⟨hi.1, fun answer store hgood => ih answer store store hgood (hi.2 answer store hgood)⟩
    | print text store resume ih =>
      exact ⟨hi.1, fun store hgood => ih store store hgood (hi.2 store hgood)⟩
    | isSole c held store resume ih =>
      exact ⟨hi.1, fun answer store hgood => ih answer store store hgood (hi.2 answer store hgood)⟩
  intro store hgood
  exact hbind (x store) store hgood (hx store hgood)

theorem obeys_eval_bind {expr : Value} {env : FrameId} {held : Held} {f : Value → Native α}
    (h : R.Lawful) (henv : R.env env) (hf : ∀ v, free (f v) ∨ (f v).Obeys R free post) :
    (Native.eval expr env held >>= f).Obeys R free post := by
  intro store _
  exact ⟨h.refl store, henv, fun _ _ => rfl, hf⟩

variable (h : R.Lawful)

include h

theorem obeys_pure {a : α} (ha : post a) : (pure a : Native α).Obeys R free post :=
  fun store _ => ⟨h.refl store, ha⟩

theorem obeys_fail (e : EvalError) : (Native.fail e : Native α).Obeys R free post :=
  fun store _ => h.refl store

theorem obeys_endless : (Native.endless : Native α).Obeys R free post :=
  fun store _ => h.refl store

theorem obeys_read (f : Store → α) : (Native.read f).Obeys R free always :=
  fun store _ => ⟨h.refl store, trivial⟩

theorem obeys_ofExcept (answer : Except EvalError α) :
    (Native.ofExcept answer).Obeys R free always := by
  intro store _
  cases answer with
  | ok a => exact ⟨h.refl store, trivial⟩
  | error e => exact h.refl store

theorem obeys_eval {expr : Value} {env : FrameId} {held : Held} (henv : R.env env)
    {free : Native Value → Prop} : (Native.eval expr env held).Obeys R free always :=
  fun store _ => ⟨h.refl store, henv, fun _ _ => rfl,
    fun _ => .inr fun store _ => ⟨h.refl store, trivial⟩⟩

theorem obeys_call {procedure : Value} {args : List Value} {held : Held}
    {free : Native Value → Prop} : (Native.call procedure args held).Obeys R free always :=
  fun store _ => ⟨h.refl store, fun _ _ => rfl, fun _ store _ => ⟨h.refl store, trivial⟩⟩

theorem obeys_intern (name : String) {free : Native Symbol → Prop} :
    (Native.intern name).Obeys R free always := by
  refine fun store _ => ⟨h.refl store, ?_⟩
  intro answer store _
  cases answer with
  | ok x => exact ⟨h.refl store, trivial⟩
  | error e => exact h.refl store

theorem obeys_print (text : String) {free : Native Unit → Prop} :
    (Native.print text).Obeys R free always :=
  fun store _ => ⟨h.refl store, fun store _ => ⟨h.refl store, trivial⟩⟩

theorem obeys_isSole (c : ClosureId) (held : Held) {free : Native Bool → Prop} :
    (Native.isSole c held).Obeys R free always :=
  fun store _ => ⟨h.refl store, fun _ store _ => ⟨h.refl store, trivial⟩⟩

omit h

theorem obeys_change {f : Store → Store} {free : Native Unit → Prop}
    (hf : ∀ store, R.good store → R.change store (f store)) :
    (Native.change f).Obeys R free always :=
  fun store hgood => ⟨hf store hgood, trivial⟩

theorem obeys_update {f : Store → α × Store}
    (hf : ∀ store, R.good store → R.change store (f store).2 ∧ post (f store).1) :
    (Native.update f).Obeys R free post :=
  fun store hgood => hf store hgood

end Native
end MiniScheme
