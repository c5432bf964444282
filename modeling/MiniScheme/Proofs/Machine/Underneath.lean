import MiniScheme.Proofs.Machine.Sequencing
import MiniScheme.Proofs.Store.Holders
/-! # What waits underneath

An evaluation above waiting work goes as it would go above nothing, for a caller that holds on to what
that work holds on to. So two evaluations above different work can be compared as if nothing waited.
-/
namespace MiniScheme

/-- What waiting work holds on to altogether. -/
def Held.ofWaiting (ws : List Waiting) : Held :=
  ⟨ws.flatMap fun w => w.held.values, ws.flatMap fun w => w.held.frames⟩

/-- The caller holds on to what `base` holds on to. -/
def Setting.bearing (setting : Setting) (base : List Waiting) : Setting :=
  { setting with caller := setting.caller.append (.ofWaiting base) }

theorem Held.mem_refs {h : Held} {t : Ref} :
    t ∈ h.refs ↔ (∃ v ∈ h.values, v.ref? = some t) ∨ ∃ e ∈ h.frames, t = .frame e := by
  simp only [Held.refs, List.mem_append, List.mem_filterMap, List.mem_map, eq_comm]

theorem Held.mem_refs_append {a b : Held} {t : Ref} :
    t ∈ (a.append b).refs ↔ t ∈ a.refs ∨ t ∈ b.refs := by
  simp only [Held.refs, Held.append, List.filterMap_append, List.map_append, List.mem_append]
  tauto

private theorem Held.mem_refs_ofWaiting {ws : List Waiting} {t : Ref} :
    t ∈ (Held.ofWaiting ws).refs ↔ ∃ w ∈ ws, t ∈ w.held.refs := by
  simp only [Held.ofWaiting, Held.refs, List.mem_append, List.mem_filterMap, List.mem_map,
    List.mem_flatMap]
  constructor
  · rintro (⟨v, ⟨w, hw, hv⟩, ht⟩ | ⟨e, ⟨w, hw, he⟩, ht⟩)
    · exact ⟨w, hw, .inl ⟨v, hv, ht⟩⟩
    · exact ⟨w, hw, .inr ⟨e, he, ht⟩⟩
  · rintro ⟨w, hw, ⟨v, hv, ht⟩ | ⟨e, he, ht⟩⟩
    · exact .inl ⟨v, ⟨w, hw, hv⟩, ht⟩
    · exact .inr ⟨e, ⟨w, hw, he⟩, ht⟩

theorem Held.mem_refs_bearing {setting : Setting} {w : Waiting} {ws : List Waiting} {t : Ref} :
    t ∈ (setting.bearing (w :: ws)).caller.refs ↔
      t ∈ (setting.bearing ws).caller.refs ∨ t ∈ w.held.refs := by
  simp only [Setting.bearing, Held.mem_refs_append, Held.mem_refs_ofWaiting, List.mem_cons,
    or_and_right, exists_or, exists_eq_left]
  rw [or_assoc]
  exact or_congr_right or_comm

theorem CallSite.mem_refs_held {site : CallSite} {t : Ref} :
    t ∈ site.held.refs ↔ t = .cell site.cell ∨ site.head.ref? = some t ∨
      site.operands.ref? = some t ∨ t = .frame site.env := by
  simp only [CallSite.held, Held.refs, List.mem_append, List.mem_filterMap, List.mem_map,
    List.mem_cons, List.not_mem_nil, or_false, or_and_right, exists_or, exists_eq_left, Value.ref?,
    Option.some.injEq, or_assoc, eq_comm]

private theorem Machine.mem_roots {m : Machine} {caller context : Held} {ws : List Waiting}
    {t : Ref} :
    t ∈ m.roots caller context ws ↔ t ∈ caller.refs ∨ t ∈ context.refs ∨
      t ∈ m.calls.values.toList.filterMap Value.ref? ∨ ∃ w ∈ ws, t ∈ w.held.refs := by
  simp only [Machine.roots, List.mem_append, List.mem_flatMap]
  tauto

private theorem Machine.mem_roots_append {m : Machine} {caller context : Held}
    {ws base : List Waiting} {t : Ref} : t ∈ m.roots caller context (ws ++ base) ↔
      t ∈ m.roots (caller.append (.ofWaiting base)) context ws := by
  simp only [Machine.mem_roots, Held.mem_refs_append, Held.mem_refs_ofWaiting, List.mem_append,
    or_and_right, exists_or]
  grind

namespace State

variable (setting : Setting) (base : List Waiting) (m : Machine) (ws : List Waiting)

def onto (s : State) : State := { s with waiting := s.waiting ++ base }

theorem nest_onto (expr : Value) (env : FrameId) :
    nest setting m (ws ++ base) expr env =
      (nest (setting.bearing base) m ws expr env).onto base := by
  have hmax : (setting.bearing base).maxDepth = setting.maxDepth := rfl
  unfold nest
  rw [hmax]
  split
  · split <;> rfl
  · rfl

private theorem applyBuiltin_onto (b : Builtin) (args : List Value) (context : Held) :
    applyBuiltin setting m (ws ++ base) b args context =
      (applyBuiltin (setting.bearing base) m ws b args context).onto base := by
  unfold applyBuiltin
  split <;> rfl

private theorem nextOperand_onto (b : Builtin) (site : CallSite) (bottom count : Nat)
    (rest : Value) :
    nextOperand setting m (ws ++ base) b site bottom count rest =
      (nextOperand (setting.bearing base) m ws b site bottom count rest).onto base := by
  unfold nextOperand
  split
  · split
    · exact applyBuiltin_onto setting base _ ws _ _ _
    · rfl
  · exact nest_onto setting base m (_ :: ws) _ _
  · rfl

private theorem nextBody_onto (frame : FrameId) (context : Held) (inPlace : Bool)
    (body : List Value) :
    nextBody setting m (ws ++ base) frame context inPlace body =
      (nextBody (setting.bearing base) m ws frame context inPlace body).onto base := by
  unfold nextBody
  split
  · rfl
  · split
    · rfl
    · exact nest_onto setting base m ws _ _
  · exact nest_onto setting base m (_ :: ws) _ _

private theorem applyClosure_onto (c : ClosureId) (args : List Value) (context : Held)
    (inPlace : Bool) :
    applyClosure setting m (ws ++ base) c args context inPlace =
      (applyClosure (setting.bearing base) m ws c args context inPlace).onto base := by
  unfold applyClosure
  dsimp only
  split
  · rfl
  · split
    · rfl
    · exact nextBody_onto setting base _ ws _ _ _ _

private theorem nextArgument_onto (c : ClosureId) (site : CallSite) (reversed : List Value)
    (rest : Value) :
    nextArgument setting m (ws ++ base) c site reversed rest =
      (nextArgument (setting.bearing base) m ws c site reversed rest).onto base := by
  unfold nextArgument
  split
  · exact applyClosure_onto setting base m ws _ _ _ _
  · exact nest_onto setting base m (_ :: ws) _ _
  · rfl

private theorem call_onto (procedure : Value) (args : List Value) :
    call setting m (ws ++ base) procedure args =
      (call (setting.bearing base) m ws procedure args).onto base := by
  unfold call
  split
  · exact applyBuiltin_onto setting base m ws _ _ _
  · exact applyClosure_onto setting base m ws _ _ _ _
  · rfl

private theorem evalExpr_onto (expr : Value) (env : FrameId) :
    evalExpr setting m (ws ++ base) expr env =
      (evalExpr (setting.bearing base) m ws expr env).onto base := by
  unfold evalExpr
  split
  · rfl
  · exact nest_onto setting base m (_ :: ws) _ _
  · rfl

private theorem applyHead_onto (site : CallSite) (head : Value) :
    applyHead setting m (ws ++ base) site head =
      (applyHead (setting.bearing base) m ws site head).onto base := by
  unfold applyHead
  split
  · exact nextOperand_onto setting base m ws _ _ _ _ _
  · rfl
  · exact nextArgument_onto setting base m ws _ _ _ _
  · rfl

private theorem deliver_onto (w : Waiting) (result : Except EvalError Value) :
    deliver setting m (ws ++ base) w result =
      (deliver (setting.bearing base) m ws w result).onto base := by
  cases w with
  | nested expr env => rfl
  | native resume context held => rfl
  | operator site =>
    cases result with
    | ok head => exact applyHead_onto setting base m ws site head
    | error e => rfl
  | operand b site bottom count current =>
    cases result with
    | ok v => exact nextOperand_onto setting base _ ws b site bottom (count + 1) _
    | error e => rfl
  | argument c site rest reversed =>
    cases result with
    | ok v => exact nextArgument_onto setting base m ws c site (v :: reversed) rest
    | error e => rfl
  | body rest frame context inPlace =>
    cases result with
    | ok v => exact nextBody_onto setting base m ws frame context inPlace rest
    | error e => rfl

private theorem runNative_onto (program : Native Outcome) (context : Held) :
    runNative setting m (ws ++ base) program context =
      (runNative (setting.bearing base) m ws program context).onto base := by
  obtain ⟨store, symbols, calls, depth, counters, output⟩ := m
  unfold runNative
  dsimp only
  cases program store with
  | done outcome store => cases outcome <;> rfl
  | fail e store => rfl
  | endless store => rfl
  | eval expr env held store resume => exact nest_onto setting base _ (_ :: ws) expr env
  | call procedure args held store resume => exact call_onto setting base _ (_ :: ws) procedure args
  | intern name store resume => rfl
  | print text store resume => rfl
  | isSole c held store resume =>
    dsimp only
    rw [store.isSoleReference_congr c fun t => Machine.mem_roots_append]
    rfl

variable {setting base} {s : State}

/-- A step above `base`, as long as it is not `base` that gets an answer. -/
theorem step_onto (hopen : ¬ s.AnswersTo []) :
    (s.onto base).step setting = (s.step (setting.bearing base)).onto base := by
  obtain ⟨m, control, ws⟩ := s
  cases control with
  | eval expr env => exact evalExpr_onto setting base _ ws expr env
  | native program context => exact runNative_onto setting base m ws program context
  | answer result =>
    cases ws with
    | nil => exact absurd ⟨result, rfl, rfl⟩ hopen
    | cons w ws => exact deliver_onto setting base m ws w result

theorem answersTo_onto_iff : (s.onto base).AnswersTo base ↔ s.AnswersTo [] := by
  simp [AnswersTo, onto]

theorem after_onto (n : Nat)
    (hopen : ∀ k < n, ¬ (after (setting.bearing base) k s).AnswersTo []) :
    after setting n (s.onto base) = (after (setting.bearing base) n s).onto base := by
  induction n with
  | zero => rfl
  | succ n ih =>
    rw [after_succ, after_succ, ih fun k hk => hopen k (Nat.lt_succ_of_lt hk),
      step_onto (hopen n (Nat.lt_succ_self n))]

end State
end MiniScheme
