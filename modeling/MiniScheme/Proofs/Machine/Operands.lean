import MiniScheme.Proofs.Machine.Alongside
/-! # Operands of native procedures and of closures

The operands of a native procedure are evaluated onto the call stack, those of a closure into a list.
The first loop looks for the next operand when one has been evaluated, the second before. So they
evaluate the same operands to the same values as long as no operand changes the rest slot of the pair
that it stands in. Meanwhile the first loop holds on to this pair, the second to what follows it;
evaluation notices this only when it is asked who holds a closure.
-/
namespace MiniScheme

namespace State

variable {setting : Setting} {ws : List Waiting}

/-- What evaluating the operands `rest` of a closure comes to, one nested evaluation after the other
from machine to machine, after those whose values are in `reversed`: the values in the order of the
operands, or the first error. -/
inductive Arguments (setting : Setting) (ws : List Waiting) (c : ClosureId) (site : CallSite) :
    (reversed : List Value) → Machine → (rest : Value) → Except EvalError (List Value) → Machine →
      Prop
  | done (reversed : List Value) (m : Machine) : Arguments setting ws c site reversed m .nil (.ok []) m
  | improper (reversed : List Value) (m : Machine) (rest : Value) (hnil : rest ≠ .nil)
    (hpair : rest.isPair = false) :
    Arguments setting ws c site reversed m rest
      (.error (improperOperands m.store site.operands)) m
  | failed (reversed : List Value) (m : Machine) (p : CellId) (e : EvalError) (m' : Machine)
    (operand : Finishes setting (.argument c site (m.store.rest p) reversed :: ws)
      (nest setting m (.argument c site (m.store.rest p) reversed :: ws) (m.store.first p) site.env)
      (.error e) m') :
    Arguments setting ws c site reversed m (.pair p) (.error e) m'
  | next (reversed : List Value) (m : Machine) (p : CellId) (v : Value) (m' m'' : Machine)
    (outcome : Except EvalError (List Value))
    (operand : Finishes setting (.argument c site (m.store.rest p) reversed :: ws)
      (nest setting m (.argument c site (m.store.rest p) reversed :: ws) (m.store.first p) site.env)
      (.ok v) m')
    (others : Arguments setting ws c site (v :: reversed) m' (m.store.rest p) outcome m'') :
    Arguments setting ws c site reversed m (.pair p) (outcome.map (v :: ·)) m''

def afterArguments (setting : Setting) (ws : List Waiting) (c : ClosureId) (site : CallSite)
    (m : Machine) (reversed : List Value) : Except EvalError (List Value) → State
  | .ok args =>
    applyClosure setting m ws c (reversed.reverse ++ args) (site.held.append ⟨[.closure c], []⟩) true
  | .error e => fail m ws e

private theorem afterArguments_map (c : ClosureId) (site : CallSite) (m : Machine)
    (reversed : List Value) (v : Value) (outcome : Except EvalError (List Value)) :
    afterArguments setting ws c site m reversed (outcome.map (v :: ·)) =
      afterArguments setting ws c site m (v :: reversed) outcome := by
  cases outcome with
  | error e => rfl
  | ok args => simp [afterArguments, Except.map]

def AtArgument (ws : List Waiting) (c : ClosureId) (site : CallSite) (s : State) : Prop :=
  ∃ above rest reversed, s.waiting = above ++ .argument c site rest reversed :: ws

/-- While the operands `rest` of a native procedure are evaluated in turn, one of them changes the
rest slot of the pair that it stands in. -/
inductive Disturbs (setting : Setting) (ws : List Waiting) (b : Builtin) (site : CallSite)
    (bottom : Nat) : (count : Nat) → Machine → (rest : Value) → Prop
  | here (count : Nat) (m : Machine) (p : CellId) (v : Value) (m' : Machine)
    (operand : Finishes setting (.operand b site bottom count p :: ws)
      (nest setting m (.operand b site bottom count p :: ws) (m.store.first p) site.env) (.ok v) m')
    (changed : m'.store.rest p ≠ m.store.rest p) :
    Disturbs setting ws b site bottom count m (.pair p)
  | later (count : Nat) (m : Machine) (p : CellId) (v : Value) (m' : Machine)
    (operand : Finishes setting (.operand b site bottom count p :: ws)
      (nest setting m (.operand b site bottom count p :: ws) (m.store.first p) site.env) (.ok v) m')
    (others : Disturbs setting ws b site bottom (count + 1) (m'.pushCall v) (m'.store.rest p)) :
    Disturbs setting ws b site bottom count m (.pair p)

/-- While both evaluate the same operand, step by step, the question whether somebody else holds a
closure is answered differently. -/
def PartAtOperands (setting : Setting) (ws : List Waiting) (b : Builtin) (site : CallSite)
    (bottom : Nat) (c : ClosureId) (site' : CallSite) (s t : State) : Prop :=
  ∃ n n' k, (∀ j ≤ k, AtOperand ws b site bottom (after setting (n + j) s) ∧
      AtArgument ws c site' (after setting (n' + j) t)) ∧
    PartAfter setting setting k (after setting n s) (after setting n' t)

variable {b : Builtin} {c : ClosureId} {site site' : CallSite} {bottom count : Nat}
  {reversed : List Value} {rest : Value} {m m' m₁ m₂ : Machine}
  {outcome : Except EvalError (List Value)}

private theorem PartAtOperands.of_proceeds {s s' t t' : State} (hs : Proceeds setting ws s s')
    (ht : Proceeds setting ws t t') (h : PartAtOperands setting ws b site bottom c site' s' t') :
    PartAtOperands setting ws b site bottom c site' s t := by
  obtain ⟨i, rfl, -⟩ := hs
  obtain ⟨i', rfl, -⟩ := ht
  obtain ⟨n, n', k, hat, hparts⟩ := h
  simp only [← after_add, ← Nat.add_assoc] at hat hparts
  exact ⟨i + n, i' + n', k, hat, hparts⟩

theorem operand_cases (setting : Setting) (ws : List Waiting) (b : Builtin) (c : ClosureId)
    (bottom count : Nat) (reversed : List Value) (p : CellId) (heffects : m₁.SameEffects m₂)
    (hdepth : m₂.depth = m₁.depth) (henv : site'.env = site.env) :
    let w : Waiting := .operand b site bottom count p
    let w' : Waiting := .argument c site' (m₂.store.rest p) reversed
    let s := nest setting m₁ (w :: ws) (m₁.store.first p) site.env
    let t := nest setting m₂ (w' :: ws) (m₂.store.first p) site'.env
    (∃ result m₁' m₂', Finishes setting (w :: ws) s result m₁' ∧
      Finishes setting (w' :: ws) t result m₂' ∧ m₁'.SameEffects m₂' ∧ m₂'.depth = m₁'.depth) ∨
    ((∀ result m', ¬ Finishes setting (w :: ws) s result m') ∧
      ∀ result m', ¬ Finishes setting (w' :: ws) t result m') ∨
    PartAtOperands setting ws b site bottom c site' s t := by
  intro w w' s t
  have hmatches : Setting.Matches ⟨w :: ws, m₁.calls.values.toList, m₁.depth⟩
      ⟨w' :: ws, m₂.calls.values.toList, m₂.depth⟩ setting setting := ⟨rfl, rfl, .inr hdepth⟩
  have hlevel : Level ⟨w :: ws, m₁.calls.values.toList, m₁.depth⟩
      ⟨w' :: ws, m₂.calls.values.toList, m₂.depth⟩ (w :: ws) (w' :: ws) m₁ m₂ := ⟨heffects, .entry⟩
  have hconcur : Concur setting setting (w :: ws) (w' :: ws) s t := by
    have halong := (hlevel.nest hmatches (m₁.store.first p) site.env).concur hmatches
    simp only [s, t, heffects.store, henv]
    exact halong
  cases hconcur with
  | finish left right effects =>
    have hleft := left.sameStack_nest
    have hright := right.sameStack_nest
    refine .inl ⟨_, _, _, left, right, effects, ?_⟩
    rw [hright.2, hleft.2, hdepth]
  | endless left right =>
    refine .inr (.inl ⟨fun result m' h => ?_, fun result m' h => ?_⟩)
    · obtain ⟨n, hn⟩ := h.exists_answersTo
      exact left n hn
    · obtain ⟨n, hn⟩ := h.exists_answersTo
      exact right n hn
  | part n n' k left right parts =>
    refine .inr (.inr ⟨n, n', k, fun j hj => ?_, parts⟩)
    obtain ⟨above, habove⟩ := (within_after (n := n + j)
      (within_nest (balanced_entry (w :: ws) m₁) _ _) fun i hi => left i (by omega)).suffix
    obtain ⟨above', habove'⟩ := (within_after (n := n' + j)
      (within_nest (balanced_entry (w' :: ws) m₂) _ _) fun i hi => right i (by omega)).suffix
    exact ⟨⟨above, count, p, habove⟩, above', _, _, habove'⟩

private theorem PartAtOperands.earlier {p : CellId} {v : Value} {m₁' m₂' : Machine}
    (operand : Finishes setting (.operand b site bottom count p :: ws)
      (nest setting m₁ (.operand b site bottom count p :: ws) (m₁.store.first p) site.env)
      (.ok v) m₁')
    (argument : Finishes setting (.argument c site' (m₂.store.rest p) reversed :: ws)
      (nest setting m₂ (.argument c site' (m₂.store.rest p) reversed :: ws) (m₂.store.first p)
        site'.env) (.ok v) m₂')
    (h : PartAtOperands setting ws b site bottom c site'
      (nextOperand setting (m₁'.pushCall v) ws b site bottom (count + 1) (m₁'.store.rest p))
      (nextArgument setting m₂' ws c site' (v :: reversed) (m₂.store.rest p))) :
    PartAtOperands setting ws b site bottom c site'
      (nextOperand setting m₁ ws b site bottom count (.pair p))
      (nextArgument setting m₂ ws c site' reversed (.pair p)) :=
  .of_proceeds operand.deliver_nest argument.deliver_nest h

/-- What the operands of a native procedure come to, they come to as those of a closure. -/
theorem Operands.arguments (reversed : List Value)
    (h : Operands setting ws b site bottom count m₁ rest outcome m)
    (heffects : m₁.SameEffects m₂) (hdepth : m₂.depth = m₁.depth) (henv : site'.env = site.env)
    (hoperands : site'.operands = site.operands) :
    (∃ m', Arguments setting ws c site' reversed m₂ rest outcome m' ∧ m.SameEffects m') ∨
      Disturbs setting ws b site bottom count m₁ rest ∨
      PartAtOperands setting ws b site bottom c site'
        (nextOperand setting m₁ ws b site bottom count rest)
        (nextArgument setting m₂ ws c site' reversed rest) := by
  induction h generalizing m₂ reversed with
  | done count m => exact .inl ⟨m₂, .done reversed m₂, heffects⟩
  | improper count m rest hnil hpair =>
    refine .inl ⟨m₂, ?_, heffects⟩
    rw [← hoperands, ← heffects.store]
    exact .improper reversed m₂ rest hnil hpair
  | failed count m p e m' operand =>
    rcases operand_cases setting ws b c bottom count reversed p heffects hdepth henv with
      ⟨result, m₁', m₂', left, right, heffects', -⟩ | ⟨hleft, -⟩ | hparts
    · obtain ⟨rfl, rfl⟩ := operand.unique left
      exact .inl ⟨m₂', .failed reversed m₂ p e m₂' right, heffects'⟩
    · exact absurd operand (hleft _ _)
    · exact .inr (.inr hparts)
  | next count m p v m' m'' outcome operand others ih =>
    rcases operand_cases setting ws b c bottom count reversed p heffects hdepth henv with
      ⟨result, m₁', m₂', left, right, heffects', hdepth'⟩ | ⟨hleft, -⟩ | hparts
    · obtain ⟨rfl, rfl⟩ := operand.unique left
      by_cases hrest : m₁'.store.rest p = m.store.rest p
      · have hpushed : (m₁'.pushCall v).SameEffects m₂' :=
          ⟨heffects'.store, heffects'.symbols, heffects'.output⟩
        have hsame : m₂.store.rest p = m₁'.store.rest p := by rw [heffects.store, hrest]
        rcases ih (v :: reversed) hpushed hdepth' with
          ⟨m₂'', hargs, heffects''⟩ | hdisturbs | hparts
        · rw [← hsame] at hargs
          exact .inl ⟨m₂'', .next reversed m₂ p v m₂' m₂'' outcome right hargs, heffects''⟩
        · exact .inr (.inl (.later count m p v m₁' operand hdisturbs))
        · exact .inr (.inr (.earlier operand right (hsame ▸ hparts)))
      · exact .inr (.inl (.here count m p v m₁' operand hrest))
    · exact absurd operand (hleft _ _)
    · exact .inr (.inr hparts)

theorem Arguments.operands (count : Nat)
    (h : Arguments setting ws c site' reversed m₂ rest outcome m)
    (heffects : m₁.SameEffects m₂) (hdepth : m₂.depth = m₁.depth) (henv : site'.env = site.env)
    (hoperands : site'.operands = site.operands) :
    (∃ m', Operands setting ws b site bottom count m₁ rest outcome m' ∧ m'.SameEffects m) ∨
      Disturbs setting ws b site bottom count m₁ rest ∨
      PartAtOperands setting ws b site bottom c site'
        (nextOperand setting m₁ ws b site bottom count rest)
        (nextArgument setting m₂ ws c site' reversed rest) := by
  induction h generalizing m₁ count with
  | done reversed m => exact .inl ⟨m₁, .done count m₁, heffects⟩
  | improper reversed m rest hnil hpair =>
    refine .inl ⟨m₁, ?_, heffects⟩
    rw [hoperands, heffects.store]
    exact .improper count m₁ rest hnil hpair
  | failed reversed m p e m' operand =>
    rcases operand_cases setting ws b c bottom count reversed p heffects hdepth henv with
      ⟨result, m₁', m₂', left, right, heffects', -⟩ | ⟨-, hright⟩ | hparts
    · obtain ⟨rfl, rfl⟩ := operand.unique right
      exact .inl ⟨m₁', .failed count m₁ p e m₁' left, heffects'⟩
    · exact absurd operand (hright _ _)
    · exact .inr (.inr hparts)
  | next reversed m p v m' m'' outcome operand others ih =>
    rcases operand_cases setting ws b c bottom count reversed p heffects hdepth henv with
      ⟨result, m₁', m₂', left, right, heffects', hdepth'⟩ | ⟨-, hright⟩ | hparts
    · obtain ⟨rfl, rfl⟩ := operand.unique right
      by_cases hrest : m₁'.store.rest p = m₁.store.rest p
      · have hsame : m.store.rest p = m₁'.store.rest p := by rw [heffects.store, hrest]
        have hpushed : (m₁'.pushCall v).SameEffects m₂' :=
          ⟨heffects'.store, heffects'.symbols, heffects'.output⟩
        rcases ih (count + 1) hpushed hdepth' with
          ⟨m₁'', hops, heffects''⟩ | hdisturbs | hparts
        · rw [hsame] at hops
          exact .inl ⟨m₁'', .next count m₁ p v m₁' m₁'' outcome left hops, heffects''⟩
        · rw [hsame] at hdisturbs
          exact .inr (.inl (.later count m₁ p v m₁' left hdisturbs))
        · exact .inr (.inr (.earlier left operand (hsame ▸ hparts)))
      · exact .inr (.inl (.here count m₁ p v m₁' left hrest))
    · exact absurd operand (hright _ _)
    · exact .inr (.inr hparts)

private theorem nextArgument_improper (hnil : rest ≠ .nil) (hpair : rest.isPair = false) :
    nextArgument setting m ws c site reversed rest =
      fail m ws (improperOperands m.store site.operands) := by
  cases rest with
  | nil => exact absurd rfl hnil
  | pair p => simp [Value.isPair] at hpair
  | _ => rfl

/-- At every moment the operands of a closure are still being evaluated, or the application has gone
on with what they came to. -/
theorem arguments_progress (setting : Setting) (ws : List Waiting) (n : Nat) (m : Machine)
    (c : ClosureId) (site : CallSite) (reversed : List Value) (rest : Value) :
    let s := nextArgument setting m ws c site reversed rest
    AtArgument ws c site (after setting n s) ∨
      ∃ k ≤ n, ∃ outcome m', Arguments setting ws c site reversed m rest outcome m' ∧
        m.SameStack m' ∧ after setting k s = afterArguments setting ws c site m' reversed outcome := by
  induction n using Nat.strongRecOn generalizing m reversed rest with
  | ind n ih =>
    intro s
    by_cases hnil : rest = .nil
    · subst hnil
      refine .inr ⟨0, Nat.zero_le _, .ok [], m, .done reversed m, ⟨rfl, rfl⟩, ?_⟩
      rw [afterArguments, List.append_nil]
      rfl
    cases hpair : rest.isPair with
    | false =>
      refine .inr ⟨0, Nat.zero_le _, _, m, .improper reversed m rest hnil hpair, ⟨rfl, rfl⟩, ?_⟩
      exact nextArgument_improper hnil hpair
    | true =>
      obtain ⟨p, rfl⟩ := Value.isPair_eq_true_iff.mp hpair
      rcases nest_progress setting n m (.argument c site (m.store.rest p) reversed) ws
          (m.store.first p) site.env with
        ⟨above, habove⟩ | ⟨k, hk, result, m', hfin, hsame, hnext⟩
      · exact .inl ⟨above, m.store.rest p, reversed, habove⟩
      change after setting (k + 1) s = _ at hnext
      cases result with
      | error e => exact .inr ⟨k + 1, hk, .error e, m', .failed reversed m p e m' hfin, hsame, hnext⟩
      | ok v =>
        rcases ih (n - (k + 1)) (by omega) m' (v :: reversed) (m.store.rest p) with
          hat | ⟨j, hj, outcome, m'', hargs, hsame', hend⟩
        · left
          rw [show n = k + 1 + (n - (k + 1)) by omega, after_add, hnext]
          exact hat
        · refine .inr ⟨k + 1 + j, by omega, outcome.map (v :: ·), m'',
            .next reversed m p v m' m'' outcome hfin hargs, hsame.trans hsame', ?_⟩
          rw [after_add, hnext, afterArguments_map]
          exact hend

theorem closure_application (m : Machine) (ws : List Waiting) (site : CallSite) (c : ClosureId)
    (n : Nat) :
    let s := applyHead setting m ws site (.closure c)
    AtArgument ws c site (after setting n s) ∨
      (∃ k ≤ n, ∃ args m', Arguments setting ws c site [] m site.operands (.ok args) m' ∧
        m.SameStack m' ∧ after setting k s =
          applyClosure setting m' ws c args (site.held.append ⟨[.closure c], []⟩) true) ∨
      ∃ k ≤ n, ∃ e m', Arguments setting ws c site [] m site.operands (.error e) m' ∧
        m.SameStack m' ∧ after setting k s = fail m' ws e := by
  intro s
  rcases arguments_progress setting ws n m c site [] site.operands with
    hat | ⟨k, hk, outcome, m', hargs, hsame, hend⟩
  · exact .inl hat
  · right
    cases outcome with
    | ok args => exact .inl ⟨k, hk, args, m', hargs, hsame, hend⟩
    | error e => exact .inr ⟨k, hk, e, m', hargs, hsame, hend⟩

end State

open State

/-- The operands of one application, for a native procedure and for a closure, from one machine. What
they come to as operands of the one, values in order or the first error, they come to as operands of
the other, with the same effects; so they come to nothing for both or for none. The exceptions are
an operand that changes the rest slot of the pair it stands in, and a definition among the operands
that finds somebody else to hold the closure it is to name in one of the cases only. What operands
come to is what the procedure is given. -/
theorem operands_are_evaluated_alike (setting : Setting) (m : Machine) (ws : List Waiting)
    (b : Builtin) (c : ClosureId) (cell cell' : CellId) (head head' operands : Value)
    (env : FrameId) :
    let site : CallSite := ⟨cell, head, operands, env⟩
    let site' : CallSite := ⟨cell', head', operands, env⟩
    let bottom := m.calls.size
    let s := applyHead setting m ws site (.builtin b)
    let t := applyHead setting m ws site' (.closure c)
    let excepted := Disturbs setting ws b site bottom 0 m operands ∨
      PartAtOperands setting ws b site bottom c site' s t
    (∀ outcome m₁, Operands setting ws b site bottom 0 m operands outcome m₁ →
      (∃ m₂, Arguments setting ws c site' [] m operands outcome m₂ ∧ m₁.SameEffects m₂) ∨
        excepted) ∧
    (∀ outcome m₂, Arguments setting ws c site' [] m operands outcome m₂ →
      (∃ m₁, Operands setting ws b site bottom 0 m operands outcome m₁ ∧ m₁.SameEffects m₂) ∨
        excepted) ∧
    (∀ n, AtOperand ws b site bottom (after setting n s) ∨
      (∃ k ≤ n, ∃ args m' m'', Operands setting ws b site bottom 0 m operands (.ok args) m' ∧
        m'.popCalls args.length = (.ok args, m'') ∧ m.SameStack m'' ∧
        after setting k s = applyBuiltin setting m'' ws b args site.held) ∨
      ∃ k ≤ n, ∃ e m' m'', Operands setting ws b site bottom 0 m operands (.error e) m' ∧
        m.SameStack m'' ∧ after setting k s = fail m'' ws e) ∧
    ∀ n, AtArgument ws c site' (after setting n t) ∨
      (∃ k ≤ n, ∃ args m', Arguments setting ws c site' [] m operands (.ok args) m' ∧
        m.SameStack m' ∧ after setting k t =
          applyClosure setting m' ws c args (site'.held.append ⟨[.closure c], []⟩) true) ∨
      ∃ k ≤ n, ∃ e m', Arguments setting ws c site' [] m operands (.error e) m' ∧
        m.SameStack m' ∧ after setting k t = fail m' ws e := by
  intro site site' bottom s t excepted
  refine ⟨?_, ?_, ?_, ?_⟩
  · intro outcome m₁ h
    exact h.arguments [] (.refl m) rfl rfl rfl
  · intro outcome m₂ h
    exact h.operands 0 (.refl m) rfl rfl rfl
  · exact builtin_application m ws site b
  · exact closure_application m ws site' c

namespace Cutting

def library : Library where
  procedures := #[Procedures.list, Procedures.setCdr, Procedures.setCar]
  forms := #[Forms.quote, Forms.define, Forms.letForm, Forms.assign]

def list : Builtin := ⟨0, "list", .atLeast 0⟩

/-- Closure 0 is `(lambda xs xs)`, closure 1 has no name. Pair 1 is the operand list
`((set-cdr! 'c ()) 2)`, where `c` is pair 1 itself. Pair 9 is the operand list
`(0 (define y (let ((t q)) (set-cdr! 'd ()) (set-car! k q) (set! k 0) (set! q 0) t)))`, where `d` is
pair 9 and the variables `k` and `q` are pair 10, in which the definition stands, and closure 1. -/
def machine : Machine where
  store :=
    { cells := #[
        ⟨.symbol ⟨9, "h"⟩, .pair ⟨1⟩⟩, ⟨.pair ⟨3⟩, .pair ⟨2⟩⟩, ⟨.int 2, .nil⟩,
        ⟨.builtin ⟨1, "set-cdr!", .exact 2⟩, .pair ⟨4⟩⟩, ⟨.pair ⟨6⟩, .pair ⟨5⟩⟩, ⟨.nil, .nil⟩,
        ⟨.symbol ⟨0, "quote"⟩, .pair ⟨7⟩⟩, ⟨.pair ⟨1⟩, .nil⟩,
        ⟨.symbol ⟨9, "h"⟩, .pair ⟨9⟩⟩, ⟨.int 0, .pair ⟨10⟩⟩, ⟨.pair ⟨11⟩, .nil⟩,
        ⟨.symbol ⟨1, "define"⟩, .pair ⟨12⟩⟩, ⟨.symbol ⟨4, "y"⟩, .pair ⟨13⟩⟩, ⟨.pair ⟨14⟩, .nil⟩,
        ⟨.symbol ⟨2, "let"⟩, .pair ⟨15⟩⟩, ⟨.pair ⟨16⟩, .pair ⟨19⟩⟩, ⟨.pair ⟨17⟩, .nil⟩,
        ⟨.symbol ⟨5, "t"⟩, .pair ⟨18⟩⟩, ⟨.symbol ⟨6, "q"⟩, .nil⟩,
        ⟨.pair ⟨20⟩, .pair ⟨25⟩⟩, ⟨.builtin ⟨1, "set-cdr!", .exact 2⟩, .pair ⟨21⟩⟩,
        ⟨.pair ⟨23⟩, .pair ⟨22⟩⟩, ⟨.nil, .nil⟩, ⟨.symbol ⟨0, "quote"⟩, .pair ⟨24⟩⟩, ⟨.pair ⟨9⟩, .nil⟩,
        ⟨.pair ⟨26⟩, .pair ⟨29⟩⟩, ⟨.builtin ⟨2, "set-car!", .exact 2⟩, .pair ⟨27⟩⟩,
        ⟨.symbol ⟨7, "k"⟩, .pair ⟨28⟩⟩, ⟨.symbol ⟨6, "q"⟩, .nil⟩,
        ⟨.pair ⟨30⟩, .pair ⟨33⟩⟩, ⟨.symbol ⟨3, "set!"⟩, .pair ⟨31⟩⟩, ⟨.symbol ⟨7, "k"⟩, .pair ⟨32⟩⟩,
        ⟨.int 0, .nil⟩,
        ⟨.pair ⟨34⟩, .pair ⟨37⟩⟩, ⟨.symbol ⟨3, "set!"⟩, .pair ⟨35⟩⟩, ⟨.symbol ⟨6, "q"⟩, .pair ⟨36⟩⟩,
        ⟨.int 0, .nil⟩, ⟨.symbol ⟨5, "t"⟩, .nil⟩]
      frames := #[⟨[(⟨0, "quote"⟩, .form ⟨0, "quote"⟩), (⟨1, "define"⟩, .form ⟨1, "define"⟩),
        (⟨2, "let"⟩, .form ⟨2, "let"⟩), (⟨3, "set!"⟩, .form ⟨3, "set!"⟩),
        (⟨6, "q"⟩, .closure ⟨1⟩), (⟨7, "k"⟩, .pair ⟨10⟩)], none⟩]
      closures := #[⟨none, .variadic [] ⟨8, "xs"⟩, [.symbol ⟨8, "xs"⟩], ⟨0⟩⟩,
        ⟨none, .fixed [], [.int 1], ⟨0⟩⟩] }
  symbols := SymbolTable.empty
  calls := CallStack.empty
  depth := 0
  counters := none
  output := .silent

def applying (c : Nat) (head : Value) : State :=
  applyHead ⟨library, none, {}⟩ machine [] (siteOf machine.store ⟨c⟩ ⟨0⟩) head

end Cutting

open Cutting in
/-- The operand that cuts off what follows its own pair: `list` is given one value, the closure two.
And the definition that has cut its pair out of the operand list: the pair, which refers to the
closure to be named, is still held as an operand of `list`, but not as one of the closure. -/
theorem operands_differ_where_cut :
    (∃ m m',
      Finishes ⟨library, none, {}⟩ [] (applying 0 (.builtin list)) (.ok (.pair ⟨38⟩)) m ∧
      m.store.spine (.pair ⟨38⟩) = .proper [.unspecified] ∧
      Finishes ⟨library, none, {}⟩ [] (applying 0 (.closure ⟨0⟩)) (.ok (.pair ⟨39⟩)) m' ∧
      m'.store.spine (.pair ⟨39⟩) = .proper [.unspecified, .int 2]) ∧
    ∃ m m',
      Finishes ⟨library, none, {}⟩ [] (applying 8 (.builtin list)) (.ok (.pair ⟨39⟩)) m ∧
      (m.store.closure ⟨1⟩).name = none ∧
      Finishes ⟨library, none, {}⟩ [] (applying 8 (.closure ⟨0⟩)) (.ok (.pair ⟨39⟩)) m' ∧
      (m'.store.closure ⟨1⟩).name = some "y" := by
  constructor
  · obtain ⟨m, hm, hone⟩ : ∃ m, Finishes ⟨library, none, {}⟩ [] (applying 0 (.builtin list))
        (.ok (.pair ⟨38⟩)) m ∧ m.store.spine (.pair ⟨38⟩) = .proper [.unspecified] :=
      exists_finishes (fun m => m.store.spine (.pair ⟨38⟩)) 100 (by decide +kernel)
    obtain ⟨m', hm', htwo⟩ : ∃ m, Finishes ⟨library, none, {}⟩ [] (applying 0 (.closure ⟨0⟩))
        (.ok (.pair ⟨39⟩)) m ∧ m.store.spine (.pair ⟨39⟩) = .proper [.unspecified, .int 2] :=
      exists_finishes (fun m => m.store.spine (.pair ⟨39⟩)) 100 (by decide +kernel)
    exact ⟨m, m', hm, hone, hm', htwo⟩
  · obtain ⟨m, hm, hnone⟩ : ∃ m, Finishes ⟨library, none, {}⟩ [] (applying 8 (.builtin list))
        (.ok (.pair ⟨39⟩)) m ∧ (m.store.closure ⟨1⟩).name = none :=
      exists_finishes (fun m => (m.store.closure ⟨1⟩).name) 100 (by decide +kernel)
    obtain ⟨m', hm', hsome⟩ : ∃ m, Finishes ⟨library, none, {}⟩ [] (applying 8 (.closure ⟨0⟩))
        (.ok (.pair ⟨39⟩)) m ∧ (m.store.closure ⟨1⟩).name = some "y" :=
      exists_finishes (fun m => (m.store.closure ⟨1⟩).name) 100 (by decide +kernel)
    exact ⟨m, m', hm, hnone, hm', hsome⟩

end MiniScheme
