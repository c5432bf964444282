import MiniScheme.Proofs.Interpreter.Definitions
import MiniScheme.Proofs.Machine.CallStack
import MiniScheme.Proofs.Machine.Rules
import MiniScheme.Proofs.Store.Frames
/-! # Definitions stay local

Evaluation in a frame binds new names in that frame and in frames made meanwhile, and nowhere else.
This is a matter of rules: code may have something evaluated in its own frame or in a new one, and
`define` binds in the frame where it is evaluated. A closure's frame and those of `let` and `let*` are
new, so a body has no way to bind a name in a frame around it. Values elsewhere are replaced by the
last part of `set!` alone.
-/
namespace MiniScheme

namespace Frame

/-- The frame has kept its parent and the names it binds, and only an `own` frame has got further
names. -/
structure KeepsNames (own : Prop) (f f' : Frame) : Prop where
  parent : f'.parent = f.parent
  kept : f.names <:+ f'.names
  names : ¬ own → f'.names = f.names

variable {own : Prop}

theorem KeepsNames.refl (f : Frame) : KeepsNames own f f :=
  ⟨rfl, List.suffix_refl _, fun _ => rfl⟩

theorem KeepsNames.trans {f f' f'' : Frame} (h : KeepsNames own f f')
    (h' : KeepsNames own f' f'') : KeepsNames own f f'' where
  parent := h'.parent.trans h.parent
  kept := h.kept.trans h'.kept
  names hown := (h'.names hown).trans (h.names hown)

private theorem keepsNames_replace (f : Frame) (x : Symbol) (v : Value) :
    KeepsNames own f (f.replace x v) where
  parent := rfl
  kept := (names_replace f x v).symm ▸ List.suffix_refl _
  names _ := names_replace f x v

private theorem keepsNames_put (hown : own) (f : Frame) (x : Symbol) (v : Value) :
    KeepsNames own f (f.put x v) := by
  unfold put
  split
  · exact keepsNames_replace f x v
  · exact ⟨rfl, List.suffix_cons x _, fun h => absurd hown h⟩

end Frame

namespace Store

/-- The first `n` frames and what has become of them are related as `rel` says. -/
structure Relates (n : Nat) (rel : FrameId → Frame → Frame → Prop) (s s' : Store) : Prop where
  size : s.frames.size ≤ s'.frames.size
  frame (e : FrameId) : e.index < n → rel e (s.frame e) (s'.frame e)

/-- The first `n` frames keep their parents and names; those in `own` may get further names. -/
def KeepsNames (n : Nat) (own : FrameId → Prop) : Store → Store → Prop :=
  Relates n fun e => Frame.KeepsNames (own e)

private theorem keepsNames_assign (n : Nat) (own : FrameId → Prop) (s : Store) (env : FrameId)
    (x : Symbol) (v : Value) : KeepsNames n own s (s.assign env x v).2 := by
  refine ⟨Nat.le_of_eq (s.size_assign env x v).symm, ?_⟩
  intro e _
  rcases s.frame_assign env x v e with heq | ⟨-, heq⟩
  · rw [heq]
    exact .refl _
  · rw [heq]
    exact Frame.keepsNames_replace _ x v

end Store

namespace Rules

/-- Evaluation happens in a frame of `own` or in a new one, and the first `n` frames change as `rel`
says. -/
def within (n : Nat) (own : FrameId → Prop) (rel : FrameId → Frame → Frame → Prop) : Rules where
  good s := n ≤ s.frames.size
  change := Store.Relates n rel
  env e := own e ∨ n ≤ e.index

private theorem lawful_within {n : Nat} {own : FrameId → Prop}
    {rel : FrameId → Frame → Frame → Prop}
    (hrefl : ∀ e f, rel e f f) (htrans : ∀ e f f' f'', rel e f f' → rel e f' f'' → rel e f f'')
    (hput : ∀ e f x v, own e → rel e f (f.put x v)) : (within n own rel).Lawful where
  good_of_change hgood hchange := Nat.le_trans hgood hchange.size
  trans h h' :=
    ⟨Nat.le_trans h.size h'.size, fun e he => htrans e _ _ _ (h.frame e he) (h'.frame e he)⟩
  of_frames_eq {s s'} h := by
    refine ⟨Nat.le_of_eq (by rw [h]), fun e _ => ?_⟩
    rw [Store.frame_of_frames_eq h]
    exact hrefl e _
  child {s} e hgood := by
    refine ⟨⟨by rw [Store.size_child]; omega, fun e' he' => ?_⟩, .inr hgood⟩
    rw [Store.frame_child e (Nat.lt_of_lt_of_le he' hgood)]
    exact hrefl e' _
  define {s e} x v _ henv := by
    refine ⟨Nat.le_of_eq (s.size_modifyFrame e _).symm, ?_⟩
    intro e' he'
    rcases s.frame_modifyFrame e e' (fun f => f.put x v) with heq | ⟨rfl, heq⟩
    · exact heq ▸ hrefl e' _
    · have hown : own e' := henv.resolve_right (by omega)
      exact heq ▸ hput e' _ x v hown

def keepNames (n : Nat) (own : FrameId → Prop) : Rules :=
  within n own fun e => Frame.KeepsNames (own e)

private theorem lawful_keepNames (n : Nat) (own : FrameId → Prop) : (keepNames n own).Lawful :=
  lawful_within (fun _ f => .refl f) (fun _ _ _ _ h h' => h.trans h')
    fun _ f x v hown => Frame.keepsNames_put hown f x v

def keepFrames (n : Nat) (own : FrameId → Prop) : Rules :=
  within n own fun e f f' => ¬ own e → f' = f

private theorem lawful_keepFrames (n : Nat) (own : FrameId → Prop) : (keepFrames n own).Lawful :=
  lawful_within (fun _ _ _ => rfl) (fun _ _ _ _ h h' hown => (h' hown).trans (h hown))
    fun _ _ _ _ hown h => absurd hown h

end Rules

namespace Standard

private theorem keepsNames_library (n : Nat) (own : FrameId → Prop) :
    library.Obeys (Rules.keepNames n own) Native.never := by
  apply obeys_library (Rules.lawful_keepNames n own)
  intro env x v _
  right
  intro store _
  have hassign := store.keepsNames_assign n own env x v
  unfold Forms.assignment
  split <;> rename_i heq <;> rw [heq] at hassign
  · exact ⟨hassign, trivial⟩
  · exact hassign

/-- The last part of `set!`. -/
def IsAssignment (program : Native Outcome) : Prop :=
  ∃ env x v, program = Forms.assignment env x v

private theorem keepsFrames_library (n : Nat) (own : FrameId → Prop) :
    library.Obeys (Rules.keepFrames n own) IsAssignment := by
  apply obeys_library (Rules.lawful_keepFrames n own)
  intro env x v _
  exact .inl ⟨env, x, v, rfl⟩

private theorem stops_assignment {n : Nat} {own : FrameId → Prop} {program : Native Outcome}
    (h : IsAssignment program) (store : Store) (hgood : (Rules.keepFrames n own).good store) :
    (program store).Stops (Rules.keepFrames n own) := by
  obtain ⟨env, x, v, rfl⟩ := h
  have hsize := store.size_assign env x v
  have hgood' : n ≤ (store.assign env x v).2.frames.size := by
    rw [hsize]
    exact hgood
  unfold Forms.assignment
  split <;> rename_i heq <;> rw [heq] at hgood' <;> exact hgood'

end Standard

namespace State

variable {setting : Setting} {m : Machine}

private theorem store_runNative_assignment (setting : Setting) (m : Machine) (ws : List Waiting)
    (env : FrameId) (x : Symbol) (v : Value) (context : Held) :
    (runNative setting m ws (Forms.assignment env x v) context).machine.store =
      (m.store.assign env x v).2 := by
  obtain ⟨store, symbols, calls, depth, counters, output⟩ := m
  simp only [runNative, Forms.assignment]
  rcases store.assign env x v with ⟨_ | _, store'⟩ <;> rfl

/-- Until a state answers `base`, no frame of `store` gets or loses a name. -/
def LeavesNames (setting : Setting) (base : List Waiting) (store : Store) (s : State) : Prop :=
  ∀ n, (∀ k < n, ¬ (after setting k s).AnswersTo base) →
    store.KeepsNames store.frames.size (fun _ => False) (after setting n s).machine.store

private theorem leavesNames_of_reaches (hlib : setting.library = Standard.library)
    {ws : List Waiting} {s : State}
    (hs : Reaches (Rules.keepNames m.store.frames.size fun _ => False) Native.never ws m s) :
    LeavesNames setting ws m.store s := by
  intro n hopen
  have hlaw := Rules.lawful_keepNames m.store.frames.size fun _ => False
  have hobeys := hlib ▸ Standard.keepsNames_library m.store.frames.size fun _ => False
  have hafter := hs.2.reaches_after hlaw hobeys n fun k hk h => absurd h (hopen k hk)
  exact hlaw.trans hs.1 hafter.1

private theorem leavesNames_applyClosure (hlib : setting.library = Standard.library) (m : Machine)
    (ws : List Waiting) (c : ClosureId) (args : List Value) (context : Held) (inPlace : Bool) :
    LeavesNames setting ws m.store (applyClosure setting m ws c args context inPlace) := by
  apply leavesNames_of_reaches hlib
  exact reaches_applyClosure (Rules.lawful_keepNames _ _) (Nat.le_refl _) (.entry _ _ ws) c args
    context inPlace

/-- Native code that keeps to the rules where no existing frame is its own. -/
theorem leavesNames_native (hlib : setting.library = Standard.library) (m : Machine)
    (ws : List Waiting) (context : Held) {program : Native Outcome}
    (hprogram : program.Obeys (Rules.keepNames m.store.frames.size fun _ => False) Native.never
      (Rules.keepNames m.store.frames.size fun _ => False).outcome) :
    LeavesNames setting ws m.store ⟨m, .native program context, ws⟩ := by
  apply leavesNames_of_reaches hlib
  exact ⟨(Rules.lawful_keepNames _ _).refl _, Nat.le_refl _, .inr hprogram, .entry _ _ ws⟩

end State

namespace Interpreter

variable {i : Interpreter} (hlib : i.library = Standard.library) (caller : Held) (expr : Value)
  (env : FrameId)

include hlib

private theorem keepsNames_evaluating (n : Nat) :
    i.machine.store.KeepsNames i.machine.store.frames.size (fun e => e = env)
      (i.evaluating caller expr env n).machine.store := by
  have hlaw := Rules.lawful_keepNames i.machine.store.frames.size fun e => e = env
  have hobeys : (i.setting caller).library.Obeys _ _ :=
    hlib ▸ Standard.keepsNames_library i.machine.store.frames.size fun e => e = env
  have hstart : State.Reaches _ Native.never [] i.machine (i.evaluating caller expr env 0) :=
    State.reaches_nest hlaw (Nat.le_refl _) (.entry _ _ []) expr (.inl rfl)
  have hafter := hstart.2.reaches_after hlaw hobeys n fun _ _ _ => rfl
  exact hlaw.trans hstart.1 hafter.1

private theorem keepsNames_evaluate {fuel : Nat} {result : Except EvalError Value} {j : Interpreter}
    (h : i.evaluate fuel caller expr env = some (result, j)) :
    i.machine.store.KeepsNames i.machine.store.frames.size (fun e => e = env) j.machine.store := by
  rw [evaluate_eq_runFrom] at h
  obtain ⟨n, hn⟩ := (runFrom_eq_some h).1.exists_after
  have hafter := keepsNames_evaluating hlib caller expr env n
  rw [evaluating, hn] at hafter
  exact hafter

/-- A step that changes an existing frame other than `env` is the last part of a `set!`. -/
theorem assignment_of_frame_ne (n : Nat) {e : FrameId}
    (he : e.index < i.machine.store.frames.size) (hne : e ≠ env)
    (hframe : (i.evaluating caller expr env (n + 1)).machine.store.frame e ≠
      (i.evaluating caller expr env n).machine.store.frame e) :
    ∃ env' x v context,
      (i.evaluating caller expr env n).control = .native (Forms.assignment env' x v) context ∧
      (i.evaluating caller expr env n).machine.store.owner env' x = some e ∧
      (i.evaluating caller expr env (n + 1)).machine.store.frame e =
        ((i.evaluating caller expr env n).machine.store.frame e).replace x v := by
  have hlaw := Rules.lawful_keepFrames i.machine.store.frames.size fun e => e = env
  have hobeys : (i.setting caller).library.Obeys _ Standard.IsAssignment :=
    hlib ▸ Standard.keepsFrames_library i.machine.store.frames.size fun e => e = env
  have hstart : State.Reaches _ Standard.IsAssignment [] i.machine
      (i.evaluating caller expr env 0) :=
    State.reaches_nest hlaw (Nat.le_refl _) (.entry _ _ []) expr (.inl rfl)
  have hobey : (i.evaluating caller expr env n).Obeys _ Standard.IsAssignment [] :=
    hstart.2.after hlaw hobeys (fun _ => Standard.stops_assignment) n fun _ _ _ => rfl
  rw [evaluating_succ] at hframe ⊢
  generalize i.evaluating caller expr env n = s at hobey hframe ⊢
  rcases (hobey.step hlaw hobeys (fun _ => Standard.stops_assignment) fun _ => rfl).2 with
    hchange | ⟨program, context, hcontrol, env', x, v, rfl⟩
  · exact absurd (hchange.frame e he hne) hframe
  · obtain ⟨m, control, ws⟩ := s
    obtain rfl : control = .native (Forms.assignment env' x v) context := hcontrol
    have hstore : (State.step (i.setting caller)
        ⟨m, .native (Forms.assignment env' x v) context, ws⟩).machine.store =
        (m.store.assign env' x v).2 :=
      State.store_runNative_assignment (i.setting caller) m ws env' x v context
    rw [hstore] at hframe ⊢
    obtain ⟨howner, heq⟩ := (m.store.frame_assign env' x v e).resolve_left hframe
    exact ⟨env', x, v, context, rfl, howner, heq⟩

end Interpreter

/-- Definitions stay local. With the standard library, evaluation in `env` leaves the parents and the
names of all frames that existed before, at every step and however it ends, but that `env` may get
further names. A step that changes another existing frame is the last part of a `set!`, and replaces
the value of a name that belongs to the frame. While a procedure's body, the body of `let` or what
follows the first expression of `let*` is run, no frame that existed before gets or loses a name. -/
theorem definitions_stay_local :
    (∀ config symbols i, config.standard → Interpreter.build config symbols = .ok i →
      i.library = Standard.library) ∧
    (∀ (i : Interpreter) (caller : Held) (expr : Value) (env : FrameId),
      i.library = Standard.library →
      (∀ fuel result j, i.evaluate fuel caller expr env = some (result, j) →
        i.machine.store.KeepsNames i.machine.store.frames.size (fun e => e = env)
          j.machine.store) ∧
      (∀ n, i.machine.store.KeepsNames i.machine.store.frames.size (fun e => e = env)
        (i.evaluating caller expr env n).machine.store) ∧
      (∀ n e, e.index < i.machine.store.frames.size → e ≠ env →
        (i.evaluating caller expr env (n + 1)).machine.store.frame e ≠
          (i.evaluating caller expr env n).machine.store.frame e →
        ∃ env' x v context,
          (i.evaluating caller expr env n).control =
            .native (Forms.assignment env' x v) context ∧
          (i.evaluating caller expr env n).machine.store.owner env' x = some e ∧
          (i.evaluating caller expr env (n + 1)).machine.store.frame e =
            ((i.evaluating caller expr env n).machine.store.frame e).replace x v)) ∧
    (∀ setting m ws, setting.library = Standard.library →
      (∀ c args context inPlace, State.LeavesNames setting ws m.store
        (State.applyClosure setting m ws c args context inPlace)) ∧
      (∀ env body values context, State.LeavesNames setting ws m.store
        ⟨m, .native (Forms.letBody env body values) context, ws⟩) ∧
      (∀ held env x v bindings body context, State.LeavesNames setting ws m.store
        ⟨m, .native (Forms.letStarBody held env x v bindings body) context, ws⟩)) ∧
    (∀ operands env, Forms.letForm operands env = (do
      let (bindings, body) ← Forms.splitLet "let" operands
      let values ← Forms.letValues (bindings.map (·.2) ++ body) env [] bindings
      Forms.letBody env body values)) ∧
    (∀ operands env, Forms.letStar operands env = (do
      match ← Forms.splitLet "let*" operands with
      | ([], body) => Forms.letBody env body []
      | ((x, init) :: bindings, body) =>
        let v ← Native.eval init env { values := init :: (bindings.map (·.2) ++ body) }
        Forms.letStarBody (bindings.map (·.2) ++ body) env x v bindings body)) ∧
    (∀ operands env, Forms.assign operands env = (do
      let items ← Forms.operandList "set!" operands
      match items with
      | [.symbol x, expr] =>
        let v ← Native.eval expr env { values := items }
        Forms.assignment env x v
      | [target, _] => Forms.badValue "set!" "not a variable: " target
      | _ => Forms.bad "set!" "expected (set! name expr)")) := by
  refine ⟨?_, ?_, ?_, Forms.letForm_eq, Forms.letStar_eq, Forms.assign_eq⟩
  · intro config symbols i hstandard h
    rw [Interpreter.library_build h, if_pos hstandard]
  · intro i caller expr env hlib
    refine ⟨?_, ?_, ?_⟩
    · intro fuel result j h
      exact Interpreter.keepsNames_evaluate hlib caller expr env h
    · intro n
      exact Interpreter.keepsNames_evaluating hlib caller expr env n
    · intro n e he hne hframe
      exact Interpreter.assignment_of_frame_ne hlib caller expr env n he hne hframe
  · intro setting m ws hlib
    refine ⟨?_, ?_, ?_⟩
    · intro c args context inPlace
      exact State.leavesNames_applyClosure hlib m ws c args context inPlace
    · intro env body values context
      apply State.leavesNames_native hlib
      exact Forms.obeys_letBody (Rules.lawful_keepNames _ _) env body values
    · intro held env x v bindings body context
      apply State.leavesNames_native hlib
      exact Forms.obeys_letStarBody (Rules.lawful_keepNames _ _) held env x v bindings body

/-- About to evaluate `(let () (define y 1) (set! x 2))` in a frame inside the one that binds `x`. -/
def defineInLet : Interpreter where
  machine :=
    { store :=
        { cells := #[⟨.form ⟨9, "let"⟩, .pair ⟨1⟩⟩, ⟨.nil, .pair ⟨2⟩⟩, ⟨.pair ⟨4⟩, .pair ⟨3⟩⟩,
            ⟨.pair ⟨7⟩, .nil⟩, ⟨.form ⟨6, "define"⟩, .pair ⟨5⟩⟩, ⟨.symbol ⟨1, "y"⟩, .pair ⟨6⟩⟩,
            ⟨.int 1, .nil⟩, ⟨.form ⟨7, "set!"⟩, .pair ⟨8⟩⟩, ⟨.symbol ⟨0, "x"⟩, .pair ⟨9⟩⟩,
            ⟨.int 2, .nil⟩]
          frames := #[⟨[(⟨0, "x"⟩, .int 0)], none⟩, ⟨[], some ⟨0⟩⟩]
          closures := #[] }
      symbols := SymbolTable.empty
      calls := CallStack.empty
      depth := 0
      counters := none
      output := .silent }
  library := Standard.library
  maxDepth := some 10
  global := ⟨0⟩

/-- The name goes to a third frame, and `x` gets its new value where it was, by `set!`. -/
theorem defineInLet_stays_local :
    (∃ result j, defineInLet.evaluate 60 {} (.pair ⟨0⟩) ⟨1⟩ = some (result, j) ∧
      j.machine.store.frames = #[⟨[(⟨0, "x"⟩, .int 2)], none⟩, ⟨[], some ⟨0⟩⟩,
        ⟨[(⟨1, "y"⟩, .int 1)], some ⟨1⟩⟩] ∧
      defineInLet.machine.store.KeepsNames 2 (fun e => e = ⟨1⟩) j.machine.store) ∧
    ∃ env x v context, (defineInLet.evaluating {} (.pair ⟨0⟩) ⟨1⟩ 25).control =
      .native (Forms.assignment env x v) context := by
  have hframes : (defineInLet.evaluate 60 {} (.pair ⟨0⟩) ⟨1⟩).map (·.2.machine.store.frames) =
      some #[⟨[(⟨0, "x"⟩, .int 2)], none⟩, ⟨[], some ⟨0⟩⟩, ⟨[(⟨1, "y"⟩, .int 1)], some ⟨1⟩⟩] := by
    decide +kernel
  have hchanged : (defineInLet.evaluating {} (.pair ⟨0⟩) ⟨1⟩ (25 + 1)).machine.store.frame ⟨0⟩ ≠
      (defineInLet.evaluating {} (.pair ⟨0⟩) ⟨1⟩ 25).machine.store.frame ⟨0⟩ := by
    decide +kernel
  obtain ⟨hnames, -, hset⟩ := definitions_stay_local.2.1 defineInLet {} (.pair ⟨0⟩) ⟨1⟩ rfl
  refine ⟨?_, ?_⟩
  · obtain ⟨⟨result, j⟩, hrun, hj⟩ := Option.map_eq_some_iff.mp hframes
    exact ⟨result, j, hrun, hj, hnames 60 result j hrun⟩
  · obtain ⟨env, x, v, context, hcontrol, -⟩ := hset 25 ⟨0⟩ (by decide) (by decide) hchanged
    exact ⟨env, x, v, context, hcontrol⟩

end MiniScheme
