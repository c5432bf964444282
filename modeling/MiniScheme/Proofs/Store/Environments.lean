import MiniScheme.Proofs.Store.Frames
/-! # Environments

Environments share frames: a frame is on the chain of every environment made inside of it. Operations
on environments only ever put a new frame inside of an old one, so every chain ends, and a name seen
from an environment belongs to the first frame on its chain that binds it. `define` and `assign` each
change one frame, and with it what is seen from exactly those environments where that frame is the
first to bind the name.
-/
namespace MiniScheme.Store

variable {s s' : Store} {e e' f : FrameId} {x y : Symbol} {v : Value} {chain : List FrameId}

/-- An environment's own frame and the frames around it, from the inside out. -/
inductive Chain (s : Store) : FrameId → List FrameId → Prop
  | outermost {e : FrameId} (h : (s.frame e).parent = none) : Chain s e [e]
  | inside {e parent : FrameId} {chain : List FrameId} (h : (s.frame e).parent = some parent)
    (around : Chain s parent chain) : Chain s e (e :: chain)

/-- The first frame on the chain of `e` to bind `x` is `f`. -/
def FirstBinds (s : Store) (e : FrameId) (x : Symbol) (f : FrameId) : Prop :=
  ∃ inner outer, s.Chain e (inner ++ f :: outer) ∧ (s.frame f).binds x = true ∧
    ∀ g ∈ inner, (s.frame g).binds x = false

/-- The frames of the store come from operations on environments, in any order and any number, with
anything done to pairs and closures in between. -/
inductive Framed : Store → Prop
  | empty : Framed Store.empty
  | elsewhere {s s' : Store} (h : Framed s) (hframes : s'.frames = s.frames) : Framed s'
  | new {s : Store} (h : Framed s) : Framed (s.newFrame none).2
  | child {s : Store} {e : FrameId} (h : Framed s) (he : e.index < s.frames.size) :
    Framed (s.child e).2
  | extend {s : Store} {e : FrameId} (h : Framed s) (he : e.index < s.frames.size)
    (formals : Formals) (args : List Value) : Framed (s.extend e formals args).2
  | define {s : Store} (h : Framed s) (e : FrameId) (x : Symbol) (v : Value) :
    Framed (s.define e x v)
  | assign {s : Store} (h : Framed s) (e : FrameId) (x : Symbol) (v : Value) :
    Framed (s.assign e x v).2

/-- The frame around another one is the older of the two. -/
def Rooted (s : Store) : Prop :=
  ∀ e parent, (s.frame e).parent = some parent → parent.index < e.index

theorem parent_define (s : Store) (e : FrameId) (x : Symbol) (v : Value) (f : FrameId) :
    ((s.define e x v).frame f).parent = (s.frame f).parent := by
  rcases s.frame_modifyFrame e f (fun g => g.put x v) with heq | ⟨-, heq⟩
  · rw [define, heq]
  · rw [define, heq, Frame.put]
    split <;> rfl

private theorem parent_assign (s : Store) (e : FrameId) (x : Symbol) (v : Value) (f : FrameId) :
    ((s.assign e x v).2.frame f).parent = (s.frame f).parent := by
  rcases s.frame_assign e x v f with heq | ⟨-, heq⟩
  · rw [heq]
  · rw [heq]
    rfl

theorem Rooted.of_parents (h : s.Rooted)
    (hparent : ∀ f, (s'.frame f).parent = (s.frame f).parent) : s'.Rooted := by
  intro e parent hsome
  rw [hparent] at hsome
  exact h e parent hsome

private theorem Rooted.newFrame (h : s.Rooted) {parent : Option FrameId}
    (hparent : ∀ p, parent = some p → p.index < s.frames.size) :
    (s.newFrame parent).2.Rooted := by
  intro e p hsome
  rw [frame_newFrame] at hsome
  split at hsome
  · next hlast =>
    rw [hlast]
    exact hparent p hsome
  · exact h e p hsome

theorem Rooted.child (h : s.Rooted) (he : e.index < s.frames.size) : (s.child e).2.Rooted := by
  apply h.newFrame
  rintro p hp
  obtain rfl := Option.some.inj hp
  exact he

private theorem Rooted.defineAll (h : s.Rooted) (bindings : List (Symbol × Value)) :
    (s.defineAll e bindings).Rooted := by
  induction bindings generalizing s with
  | nil => exact h
  | cons b bindings ih => exact ih (h.of_parents (s.parent_define e b.1 b.2))

private theorem Rooted.extend (h : s.Rooted) (he : e.index < s.frames.size) (formals : Formals)
    (args : List Value) : (s.extend e formals args).2.Rooted := by
  have hchild := h.child he
  unfold Store.extend
  split
  · cases formals with
    | fixed names => exact hchild.defineAll _
    | variadic names rest =>
      have hlist : ((s.child e).2.list (args.drop names.length)).2.Rooted :=
        hchild.of_parents fun f =>
          congrArg Frame.parent (frame_of_frames_eq (frames_consAll _ _ _) f)
      exact (hlist.defineAll _).of_parents (parent_define _ _ _ _)
  · exact h

theorem Framed.rooted (h : s.Framed) : s.Rooted := by
  induction h with
  | empty =>
    intro e parent hsome
    simp [frame, Store.empty] at hsome
  | elsewhere _ hframes ih => exact ih.of_parents fun f => by rw [frame_of_frames_eq hframes]
  | new _ ih => exact ih.newFrame (by simp)
  | child _ he ih => exact ih.child he
  | extend _ he formals args ih => exact ih.extend he formals args
  | define _ e x v ih => exact ih.of_parents (parent_define _ e x v)
  | assign _ e x v ih => exact ih.of_parents (parent_assign _ e x v)

theorem Rooted.exists_chain (h : s.Rooted) (e : FrameId) :
    ∃ chain, s.Chain e chain ∧ chain.length ≤ e.index + 1 := by
  obtain ⟨k⟩ := e
  induction k using Nat.strongRecOn with
  | _ k ih =>
    cases hparent : (s.frame ⟨k⟩).parent with
    | none => exact ⟨[⟨k⟩], .outermost hparent, by simp⟩
    | some parent =>
      have hlt := h _ _ hparent
      obtain ⟨chain, hchain, hlength⟩ := ih parent.index hlt
      refine ⟨⟨k⟩ :: chain, .inside hparent hchain, ?_⟩
      rw [List.length_cons]
      exact Nat.succ_le_succ (Nat.le_trans hlength hlt)

private theorem Chain.unique {chain' : List FrameId} (h : s.Chain e chain) (h' : s.Chain e chain') :
    chain = chain' := by
  induction h generalizing chain' with
  | outermost hnone =>
    cases h' with
    | outermost _ => rfl
    | inside hsome _ => simp [hnone] at hsome
  | inside hsome _ ih =>
    cases h' with
    | outermost hnone => simp [hnone] at hsome
    | inside hsome' around =>
      obtain rfl := Option.some.inj (hsome.symm.trans hsome')
      rw [ih around]

private theorem Chain.depthWithin {steps : Nat} (h : s.Chain e chain)
    (hsteps : chain.length ≤ steps) :
    s.depthWithin steps e + 1 = chain.length := by
  induction h generalizing steps with
  | outermost hnone =>
    cases steps with
    | zero => simp at hsteps
    | succ steps => simp [Store.depthWithin, hnone]
  | inside hsome _ ih =>
    cases steps with
    | zero => simp at hsteps
    | succ steps =>
      simp only [Store.depthWithin, hsome]
      rw [ih (by simpa using hsteps), List.length_cons]

private theorem Chain.ownerWithin {steps : Nat} (h : s.Chain e chain)
    (hsteps : chain.length ≤ steps) (x : Symbol) :
    s.ownerWithin x steps e = chain.find? (fun f => (s.frame f).binds x) := by
  induction h generalizing steps with
  | @outermost e hnone =>
    cases steps with
    | zero => simp at hsteps
    | succ steps =>
      rw [Store.ownerWithin, List.find?_cons, List.find?_nil, hnone]
      cases (s.frame e).binds x <;> rfl
  | @inside e _ _ hsome _ ih =>
    cases steps with
    | zero => simp at hsteps
    | succ steps =>
      rw [Store.ownerWithin, List.find?_cons, hsome]
      cases (s.frame e).binds x with
      | true => rfl
      | false => exact ih (by simpa using hsteps)

private theorem Rooted.ownerWithin_of_lt (h : s.Rooted) {steps : Nat} (hsteps : e.index < steps)
    (x : Symbol) : s.ownerWithin x steps e = s.owner e x := by
  obtain ⟨chain, hchain, hlength⟩ := h.exists_chain e
  rw [owner, hchain.ownerWithin hlength, hchain.ownerWithin (Nat.le_trans hlength hsteps)]

private theorem Rooted.depthWithin_of_lt (h : s.Rooted) {steps : Nat} (hsteps : e.index < steps) :
    s.depthWithin steps e = s.depth e := by
  obtain ⟨chain, hchain, hlength⟩ := h.exists_chain e
  have hdepth := hchain.depthWithin (Nat.le_trans hlength hsteps)
  have hdepth' := hchain.depthWithin hlength
  exact Nat.succ.inj (hdepth.trans hdepth'.symm)

/-- The owner of a name is the first frame that binds it. -/
theorem Rooted.owner_eq_some_iff (h : s.Rooted) : s.owner e x = some f ↔ s.FirstBinds e x f := by
  obtain ⟨chain, hchain, hlength⟩ := h.exists_chain e
  rw [owner, hchain.ownerWithin hlength, List.find?_eq_some_iff_append]
  simp only [Bool.not_eq_true']
  constructor
  · rintro ⟨hbinds, inner, outer, rfl, hinner⟩
    exact ⟨inner, outer, hchain, hbinds, hinner⟩
  · rintro ⟨inner, outer, hchain', hbinds, hinner⟩
    exact ⟨hbinds, inner, outer, hchain.unique hchain', hinner⟩

private theorem Rooted.owner_eq_none_iff (h : s.Rooted) :
    s.owner e x = none ↔ ∀ chain, s.Chain e chain → ∀ f ∈ chain, (s.frame f).binds x = false := by
  obtain ⟨chain, hchain, hlength⟩ := h.exists_chain e
  rw [owner, hchain.ownerWithin hlength, List.find?_eq_none]
  simp only [Bool.not_eq_true]
  constructor
  · intro hnone chain' hchain'
    rwa [← hchain.unique hchain']
  · intro hnone
    exact hnone chain hchain

theorem lookupWithin_eq (s : Store) (x : Symbol) (steps : Nat) (e : FrameId) :
    s.lookupWithin x steps e = (s.ownerWithin x steps e).bind fun f => (s.frame f).get? x := by
  induction steps generalizing e with
  | zero => rfl
  | succ steps ih =>
    rw [lookupWithin, ownerWithin]
    cases hget : (s.frame e).get? x with
    | some v =>
      have hbinds : (s.frame e).binds x = true := by rw [← Frame.isSome_get?, hget]; rfl
      simp [hbinds, hget]
    | none =>
      rw [if_neg (by simp [Frame.get?_eq_none_iff.mp hget])]
      cases (s.frame e).parent with
      | none => rfl
      | some parent => exact ih parent

private theorem binds_of_owner (h : s.owner e x = some f) : (s.frame f).binds x = true := by
  have hwithin (steps : Nat) (e : FrameId) (h : s.ownerWithin x steps e = some f) :
      (s.frame f).binds x = true := by
    induction steps generalizing e with
    | zero => simp [ownerWithin] at h
    | succ steps ih =>
      rw [ownerWithin] at h
      split at h
      · next hbinds =>
        obtain rfl := Option.some.inj h
        exact hbinds
      · split at h
        · exact ih _ h
        · simp at h
  exact hwithin _ _ h

private theorem lookup_of_owner (h : s.owner e x = some f) (hget : (s.frame f).get? x = some v) :
    s.lookup e x = .ok v := by
  rw [lookup, lookupWithin_eq, ← owner, h, Option.bind_some, hget]

private theorem lookup_of_owner_eq_none (h : s.owner e x = none) :
    s.lookup e x = .error (.unboundVariable x.name) := by
  rw [lookup, lookupWithin_eq, ← owner, h, Option.bind_none]

private theorem exists_get?_of_owner (h : s.owner e x = some f) :
    ∃ v, (s.frame f).get? x = some v := by
  rw [← Option.isSome_iff_exists, Frame.isSome_get?]
  exact binds_of_owner h

private theorem lookup_eq_ok_iff :
    s.lookup e x = .ok v ↔ ∃ f, s.owner e x = some f ∧ (s.frame f).get? x = some v := by
  constructor
  · intro h
    cases howner : s.owner e x with
    | none => simp [lookup_of_owner_eq_none howner] at h
    | some f =>
      obtain ⟨w, hw⟩ := exists_get?_of_owner howner
      rw [lookup_of_owner howner hw, Except.ok.injEq] at h
      exact ⟨f, rfl, h ▸ hw⟩
  · rintro ⟨f, howner, hget⟩
    exact lookup_of_owner howner hget

private theorem lookup_eq_error_iff {error : EvalError} :
    s.lookup e x = .error error ↔ error = .unboundVariable x.name ∧ s.owner e x = none := by
  cases howner : s.owner e x with
  | none =>
    rw [lookup_of_owner_eq_none howner, Except.error.injEq]
    exact ⟨fun h => ⟨h.symm, rfl⟩, fun h => h.1.symm⟩
  | some f =>
    obtain ⟨w, hw⟩ := exists_get?_of_owner howner
    simp [lookup_of_owner howner hw]

/-- Look-up is the same where a name has the same owner with the same value for it. -/
theorem lookup_congr (howner : s'.owner e x = s.owner e x)
    (hget : ∀ f, s.owner e x = some f → (s'.frame f).get? x = (s.frame f).get? x) :
    s'.lookup e x = s.lookup e x := by
  cases h : s.owner e x with
  | none =>
    rw [lookup_of_owner_eq_none h, lookup_of_owner_eq_none (howner.trans h)]
  | some f =>
    obtain ⟨w, hw⟩ := exists_get?_of_owner h
    rw [lookup_of_owner h hw, lookup_of_owner (howner.trans h) ((hget f h).trans hw)]

/-- A name keeps its owner where some frames bind more, unless one of these is now its owner. -/
theorem owner_congr (hparent : ∀ f, (s'.frame f).parent = (s.frame f).parent)
    (hmore : ∀ f, (s.frame f).binds x = true → (s'.frame f).binds x = true)
    (howner : ∀ f, s'.owner e x = some f → (s.frame f).binds x = true) :
    s'.owner e x = s.owner e x := by
  have hwithin (steps : Nat) (e : FrameId)
      (howner : ∀ f, s'.ownerWithin x steps e = some f → (s.frame f).binds x = true) :
      s'.ownerWithin x steps e = s.ownerWithin x steps e := by
    induction steps generalizing e with
    | zero => rfl
    | succ steps ih =>
      rw [ownerWithin] at howner ⊢
      by_cases hbinds : (s'.frame e).binds x = true
      · simp only [if_pos hbinds] at howner ⊢
        rw [ownerWithin, if_pos (howner e rfl)]
      · have hbinds' : ¬ (s.frame e).binds x = true := fun h => hbinds (hmore e h)
        simp only [if_neg hbinds, hparent] at howner ⊢
        rw [ownerWithin, if_neg hbinds']
        cases hp : (s.frame e).parent with
        | none => rfl
        | some parent =>
          rw [hp] at howner
          exact ih parent howner
  exact hwithin _ e howner

private theorem owner_of_same (s : Store) (e : FrameId) (h : x.same y = true) :
    s.owner e x = s.owner e y := by
  have hwithin (steps : Nat) (e : FrameId) : s.ownerWithin x steps e = s.ownerWithin y steps e := by
    induction steps generalizing e with
    | zero => rfl
    | succ steps ih => simp only [ownerWithin, Frame.binds_of_same _ h, ih]
  exact hwithin _ e

private theorem get?_define (he : e.index < s.frames.size) (f : FrameId) :
    ((s.define e x v).frame f).get? y =
      if f = e ∧ x.same y = true then some v else (s.frame f).get? y := by
  rw [define, frame_modifyFrame_eq]
  by_cases hf : f = e
  · rw [if_pos ⟨hf, he⟩, Frame.get?_put]
    simp only [hf, true_and]
  · rw [if_neg fun h => hf h.1, if_neg fun h => hf h.1]

/-- `define` shows where its frame is now the first to bind the name. -/
theorem lookup_define_of_owner (he : e.index < s.frames.size) (hsame : x.same y = true)
    (howner : (s.define e x v).owner e' y = some e) : (s.define e x v).lookup e' y = .ok v := by
  apply lookup_of_owner howner
  rw [get?_define he, if_pos ⟨rfl, hsame⟩]

private theorem lookup_define_of_not_owner (he : e.index < s.frames.size)
    (hother : ¬ (x.same y = true ∧ (s.define e x v).owner e' y = some e)) :
    (s.define e x v).lookup e' y = s.lookup e' y := by
  have hget (f : FrameId) (hf : (s.define e x v).owner e' y = some f) :
      ((s.define e x v).frame f).get? y = (s.frame f).get? y := by
    rw [get?_define he, if_neg]
    rintro ⟨rfl, hsame⟩
    exact hother ⟨hsame, hf⟩
  have howner : (s.define e x v).owner e' y = s.owner e' y := by
    apply owner_congr (s.parent_define e x v)
    · intro f hf
      rw [← Frame.isSome_get?] at hf ⊢
      rw [get?_define he]
      split
      · rfl
      · exact hf
    · intro f hf
      rw [← Frame.isSome_get?, ← hget f hf, Frame.isSome_get?]
      exact binds_of_owner hf
  exact lookup_congr howner fun f hf => hget f (howner.trans hf)

theorem size_define (s : Store) (e : FrameId) (x : Symbol) (v : Value) :
    (s.define e x v).frames.size = s.frames.size :=
  size_modifyFrame s e _

theorem lookup_define_self (s : Store) (he : e.index < s.frames.size) (x : Symbol) (v : Value) :
    (s.define e x v).lookup e x = .ok v := by
  apply lookup_define_of_owner he (Symbol.same_self x)
  have hbinds : ((s.define e x v).frame e).binds x = true := by
    rw [← Frame.isSome_get?, get?_define he, if_pos ⟨rfl, Symbol.same_self x⟩]
    rfl
  rw [owner, ownerWithin, if_pos hbinds]

theorem lookup_define_of_ne (he : e.index < s.frames.size) (h : x.same y = false) (v : Value)
    (e' : FrameId) : (s.define e x v).lookup e' y = s.lookup e' y := by
  apply lookup_define_of_not_owner he
  rw [h]
  simp

theorem lookup_of_frames (h : s'.frames = s.frames) (e : FrameId) (x : Symbol) :
    s'.lookup e x = s.lookup e x := by
  have hframe := frame_of_frames_eq h
  apply lookup_congr
  · exact owner_congr (fun f => by rw [hframe]) (fun f hf => by rwa [hframe])
      (fun f hf => by rw [← hframe]; exact binds_of_owner hf)
  · intro f _
    rw [hframe]

private theorem Rooted.lookupWithin_child (h : s.Rooted) (e : FrameId) (x : Symbol) (steps : Nat)
    (he' : e'.index < s.frames.size) :
    (s.child e).2.lookupWithin x steps e' = s.lookupWithin x steps e' := by
  induction steps generalizing e' with
  | zero => rfl
  | succ steps ih =>
    rw [lookupWithin, lookupWithin, frame_child e he']
    cases hparent : (s.frame e').parent with
    | none => rfl
    | some parent =>
      have hrest := ih (Nat.lt_trans (h e' parent hparent) he')
      simp only [hrest]

theorem Rooted.lookup_child_of_lt (h : s.Rooted) (e : FrameId) (he' : e'.index < s.frames.size)
    (x : Symbol) : (s.child e).2.lookup e' x = s.lookup e' x := by
  rw [lookup, lookup, h.lookupWithin_child e x _ he']

theorem Rooted.lookup_child (h : s.Rooted) (he : e.index < s.frames.size) (x : Symbol) :
    (s.child e).2.lookup ⟨s.frames.size⟩ x = s.lookup e x := by
  have hframe : (s.child e).2.frame ⟨s.frames.size⟩ = ⟨[], some e⟩ := by
    rw [Store.child, frame_newFrame, if_pos rfl]
  have hwithin : (s.child e).2.lookupWithin x (s.frames.size + 1) ⟨s.frames.size⟩ =
      s.lookupWithin x (e.index + 1) e := by
    rw [lookupWithin, hframe]
    change (s.child e).2.lookupWithin x s.frames.size e = _
    rw [h.lookupWithin_child e x _ he, lookupWithin_eq, lookupWithin_eq,
      h.ownerWithin_of_lt he x, owner]
  rw [lookup, lookup, hwithin]

private theorem assign_eq_of_owner (h : s.owner e x = some f) :
    s.assign e x v = (.ok (), s.modifyFrame f (fun g => g.replace x v)) := by
  rw [assign, h]

private theorem assign_eq_of_owner_eq_none (h : s.owner e x = none) :
    s.assign e x v = (.error (.unboundVariable x.name), s) := by
  rw [assign, h]

private theorem names_assign (s : Store) (e : FrameId) (x : Symbol) (v : Value) (f : FrameId) :
    ((s.assign e x v).2.frame f).names = (s.frame f).names := by
  rcases s.frame_assign e x v f with heq | ⟨-, heq⟩
  · rw [heq]
  · rw [heq, Frame.names_replace]

private theorem owner_assign (s : Store) (e : FrameId) (x : Symbol) (v : Value) (e' : FrameId)
    (y : Symbol) :
    (s.assign e x v).2.owner e' y = s.owner e' y := by
  have hbinds (f : FrameId) : ((s.assign e x v).2.frame f).binds y = (s.frame f).binds y := by
    rw [Frame.binds_eq_any_names, names_assign, ← Frame.binds_eq_any_names]
  apply owner_congr (s.parent_assign e x v)
  · intro f hf
    rwa [hbinds]
  · intro f hf
    rw [← hbinds]
    exact binds_of_owner hf

private theorem index_lt_of_binds (h : (s.frame f).binds x = true) : f.index < s.frames.size := by
  apply Classical.byContradiction
  intro hout
  simp [frame, hout, Frame.binds] at h

private theorem get?_assign (howner : s.owner e x = some f) (g : FrameId) :
    ((s.assign e x v).2.frame g).get? y =
      if g = f ∧ x.same y = true then some v else (s.frame g).get? y := by
  have hbinds := binds_of_owner howner
  rw [assign_eq_of_owner howner, frame_modifyFrame_eq]
  by_cases hg : g = f
  · subst hg
    rw [if_pos ⟨rfl, index_lt_of_binds hbinds⟩, Frame.get?_replace]
    by_cases hsame : x.same y = true
    · rw [if_pos ⟨hsame, by rwa [← Frame.binds_of_same _ hsame]⟩, if_pos ⟨rfl, hsame⟩]
    · rw [if_neg fun h => hsame h.1, if_neg fun h => hsame h.2]
  · rw [if_neg fun h => hg h.1, if_neg fun h => hg h.1]

theorem lookup_assign_of_owner (howner : s.owner e x = some f) (hsame : x.same y = true)
    (howner' : s.owner e' y = some f) : (s.assign e x v).2.lookup e' y = .ok v := by
  apply lookup_of_owner ((s.owner_assign e x v e' y).trans howner')
  rw [get?_assign howner, if_pos ⟨rfl, hsame⟩]

private theorem lookup_assign_of_not_owner (howner : s.owner e x = some f)
    (hother : ¬ (x.same y = true ∧ s.owner e' y = some f)) :
    (s.assign e x v).2.lookup e' y = s.lookup e' y := by
  apply lookup_congr (s.owner_assign e x v e' y)
  intro g hg
  rw [get?_assign howner, if_neg]
  rintro ⟨rfl, hsame⟩
  exact hother ⟨hsame, hg⟩

/-- Environments follow their chains, however their frames were made, bound and assigned. Every chain
ends, so the way outward does for look-up, assignment and depth, wherever a bound is set beyond it.
Look-up gives the value in the first frame that binds the name, and fails if no frame of the chain
does. `define` changes what is seen from the environments where its frame is now the first to bind the
name, and nothing else. `assign` binds no further name, and changes what is seen from the environments
where the first frame to bind the name is the same, and nothing else; where it fails, it changes
nothing. -/
theorem environments_follow_chains (hs : s.Framed) :
    (∀ e, ∃ chain, s.Chain e chain ∧ s.depth e + 1 = chain.length ∧
      ∀ steps, e.index < steps → s.depthWithin steps e = s.depth e ∧
        ∀ x, s.ownerWithin x steps e = s.owner e x ∧
          s.lookupWithin x steps e = s.lookupWithin x (e.index + 1) e) ∧
    (∀ e x v, s.lookup e x = .ok v ↔ ∃ f, s.FirstBinds e x f ∧ (s.frame f).get? x = some v) ∧
    (∀ e x error, s.lookup e x = .error error ↔ error = .unboundVariable x.name ∧
      ∀ chain, s.Chain e chain → ∀ f ∈ chain, (s.frame f).binds x = false) ∧
    (∀ e x v, e.index < s.frames.size → ∀ e' y,
      let s' := s.define e x v
      (x.same y = true ∧ s'.FirstBinds e' x e → s'.lookup e' y = .ok v) ∧
        (¬ (x.same y = true ∧ s'.FirstBinds e' x e) → s'.lookup e' y = s.lookup e' y)) ∧
    (∀ e x v, (s.assign e x v).1 = .ok () →
      let s' := (s.assign e x v).2
      s'.frames.size = s.frames.size ∧ (∀ f, (s'.frame f).names = (s.frame f).names) ∧
      ∀ e' y,
        (x.same y = true ∧ (∃ f, s.FirstBinds e x f ∧ s.FirstBinds e' x f) →
          s'.lookup e' y = .ok v) ∧
        (¬ (x.same y = true ∧ ∃ f, s.FirstBinds e x f ∧ s.FirstBinds e' x f) →
          s'.lookup e' y = s.lookup e' y)) ∧
    (∀ e x v error, (s.assign e x v).1 = .error error →
      error = .unboundVariable x.name ∧ (∀ f, ¬ s.FirstBinds e x f) ∧ (s.assign e x v).2 = s) := by
  have hrooted := hs.rooted
  refine ⟨?_, ?_, ?_, ?_, ?_, ?_⟩
  · intro e
    obtain ⟨chain, hchain, hlength⟩ := hrooted.exists_chain e
    refine ⟨chain, hchain, hchain.depthWithin hlength, fun steps hsteps => ?_⟩
    refine ⟨hrooted.depthWithin_of_lt hsteps, fun x => ?_⟩
    have howner := hrooted.ownerWithin_of_lt hsteps x
    exact ⟨howner, by rw [lookupWithin_eq, lookupWithin_eq, howner, owner]⟩
  · intro e x v
    simp only [lookup_eq_ok_iff, hrooted.owner_eq_some_iff]
  · intro e x error
    rw [lookup_eq_error_iff, hrooted.owner_eq_none_iff]
  · intro e x v he e' y s'
    have hrooted' : s'.Rooted := (hs.define e x v).rooted
    rw [← hrooted'.owner_eq_some_iff]
    constructor
    · rintro ⟨hsame, howner⟩
      rw [s'.owner_of_same e' hsame] at howner
      exact lookup_define_of_owner he hsame howner
    · intro hother
      apply lookup_define_of_not_owner he
      rintro ⟨hsame, howner⟩
      rw [← owner_of_same _ e' hsame] at howner
      exact hother ⟨hsame, howner⟩
  · intro e x v hok s'
    refine ⟨s.size_assign e x v, s.names_assign e x v, fun e' y => ?_⟩
    cases howner : s.owner e x with
    | none => simp [assign_eq_of_owner_eq_none howner] at hok
    | some f =>
      have hfirst : (∃ f, s.FirstBinds e x f ∧ s.FirstBinds e' x f) ↔ s.owner e' x = some f := by
        simp only [← hrooted.owner_eq_some_iff, howner, Option.some.injEq, exists_eq_left']
      rw [hfirst]
      constructor
      · rintro ⟨hsame, howner'⟩
        rw [s.owner_of_same e' hsame] at howner'
        exact lookup_assign_of_owner howner hsame howner'
      · intro hother
        apply lookup_assign_of_not_owner howner
        rintro ⟨hsame, howner'⟩
        rw [← s.owner_of_same e' hsame] at howner'
        exact hother ⟨hsame, howner'⟩
  · intro e x v error herror
    cases howner : s.owner e x with
    | some f => simp [assign_eq_of_owner howner] at herror
    | none =>
      rw [assign_eq_of_owner_eq_none howner] at herror ⊢
      refine ⟨(Except.error.inj herror).symm, fun f hf => ?_, rfl⟩
      rw [← hrooted.owner_eq_some_iff, howner] at hf
      simp at hf

/-- A global frame that binds `x` to 1, a frame inside of it that binds `x` to 2, and an empty frame
inside of each. -/
def shadowed : Store :=
  let s := (Store.empty.newFrame none).2.define ⟨0⟩ ⟨0, "x"⟩ (.int 1)
  let s := (s.extend ⟨0⟩ (.fixed [⟨0, "x"⟩]) [.int 2]).2
  let s := (s.child ⟨1⟩).2
  (s.child ⟨0⟩).2

private theorem framed_shadowed : shadowed.Framed :=
  .child (.child (.extend (.define (.new .empty) _ _ _) (by decide) _ _) (by decide)) (by decide)

/-- Assigned to in the frame inside of the second, `x` changes there and in the second frame, and keeps
its value in the other two. -/
theorem assignment_below_shadow :
    shadowed.Framed ∧
    let x : Symbol := ⟨0, "x"⟩
    let s := (shadowed.assign ⟨2⟩ x (.int 3)).2
    s.lookup ⟨1⟩ x = .ok (.int 3) ∧ s.lookup ⟨2⟩ x = .ok (.int 3) ∧
      s.lookup ⟨3⟩ x = shadowed.lookup ⟨3⟩ x ∧ shadowed.lookup ⟨3⟩ x = .ok (.int 1) ∧
      shadowed.depth ⟨2⟩ + 1 = 3 := by
  refine ⟨framed_shadowed, ?_⟩
  intro x s
  have hrooted := framed_shadowed.rooted
  have hfirst {e f : FrameId} (h : shadowed.owner e x = some f) : shadowed.FirstBinds e x f :=
    hrooted.owner_eq_some_iff.mp h
  obtain ⟨-, -, -, -, hassign, -⟩ := environments_follow_chains framed_shadowed
  obtain ⟨-, -, hlookup⟩ := hassign ⟨2⟩ x (.int 3) rfl
  refine ⟨(hlookup ⟨1⟩ x).1 ⟨rfl, ⟨1⟩, hfirst rfl, hfirst rfl⟩,
    (hlookup ⟨2⟩ x).1 ⟨rfl, ⟨1⟩, hfirst rfl, hfirst rfl⟩, (hlookup ⟨3⟩ x).2 ?_, rfl, rfl⟩
  rintro ⟨-, f, hf, hf'⟩
  rw [← hrooted.owner_eq_some_iff] at hf hf'
  have hone : shadowed.owner ⟨2⟩ x = some ⟨1⟩ := rfl
  have hzero : shadowed.owner ⟨3⟩ x = some ⟨0⟩ := rfl
  rw [← hf', hone, hzero] at hf
  simp at hf

end MiniScheme.Store
