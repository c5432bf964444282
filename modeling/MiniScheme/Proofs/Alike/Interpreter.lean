import MiniScheme.Proofs.Alike.Machine
import MiniScheme.Proofs.Alike.Reader
import MiniScheme.Proofs.Session.Runs
/-! # Alike interpreters

Interpreters that are alike evaluate one text in step with each other: each datum is read alike, each
evaluation takes as many steps in both and ends alike, and so the text does. This holds as long as no
table is full, and for one table in any case.
-/
namespace MiniScheme

variable {K : Terms} {L L' : Link K}

private theorem ReadError.isInternal_toEvalError (e : ReadError) :
    e.toEvalError.isInternal = false := by
  cases e <;> rfl

/-- Interpreters that are alike but for what their native code does. -/
structure Interpreter.Abreast (L : Link K) (i i' : Interpreter) : Prop where
  machine : i.machine.Alike L i'.machine
  maxDepth : i'.maxDepth = i.maxDepth
  global : i'.global = i.global
  procedures : i'.library.procedures.size = i.library.procedures.size
  forms : i'.library.forms.size = i.library.forms.size

structure Interpreter.Alike (L : Link K) (i i' : Interpreter) : Prop
    extends i.Abreast L i' where
  library : i.library.Alike K i'.library

namespace Interpreter

/-- The states that evaluating the rest of a text passes through as far as the steps suffice, and the
reader meanwhile. Between two data the state has the value before as its answer. -/
inductive Passes : Nat → Interpreter → Reader → Value → State → Reader → Prop
  | start (fuel : Nat) (i : Interpreter) (r : Reader) (last : Value) :
    Passes fuel i r last (.answer i.machine [] last) r
  | read {i j : Interpreter} {r after : Reader} {outcome : Except ReadError (Option Value)}
    (read : i.readValue r = (outcome, after, j)) (fuel : Nat) (last : Value) :
    Passes (fuel + 1) i r last (.answer j.machine [] last) after
  | evaluate {i j : Interpreter} {r after : Reader} {datum : Value}
    (read : i.readValue r = (.ok (some datum), after, j)) (last : Value) {n fuel : Nat}
    (enough : n < fuel) :
    Passes (fuel + 1) i r last (j.evaluating ⟨[last], []⟩ datum j.global n) after
  | next {i j k : Interpreter} {r after rd : Reader} {datum last v : Value} {fuel : Nat} {s : State}
    (read : i.readValue r = (.ok (some datum), after, j))
    (eval : j.evaluate fuel ⟨[last], []⟩ datum j.global = some (.ok v, k))
    (rest : Passes fuel k after v s rd) : Passes (fuel + 1) i r last s rd

/-- No table that evaluating the rest of a text passes through is at the end of its growth. -/
def HasRoom (fuel : Nat) (i : Interpreter) (r : Reader) (last : Value) : Prop :=
  ∀ s rd, Passes fuel i r last s rd → s.machine.symbols.CanGrow

variable {i i' : Interpreter} {r r' : Reader} {caller caller' : Held} {v v' : Value}

private theorem Alike.setting (h : i.Alike L i') (hcaller : caller.Alike L caller') :
    (i.setting caller).Alike L (i'.setting caller') :=
  ⟨⟨h.library, h.maxDepth⟩, hcaller⟩

private theorem within_evaluating (i : Interpreter) (caller : Held) (v : Value) (env : FrameId) :
    State.Within [] i.machine.calls.values.toList i.machine.depth (i.evaluating caller v env 0) :=
  State.within_nest (State.balanced_entry [] i.machine) v env

theorem Alike.evaluating (h : i.Alike L i') (hcaller : caller.Alike L caller') (hv : v.Alike L v')
    (env : FrameId) (n : Nat)
    (hgrow : K.strict ∨ ∀ k < n, (i.evaluating caller v env k).machine.symbols.CanGrow ∧
      (i'.evaluating caller' v' env k).machine.symbols.CanGrow) :
    ∃ L', L ≤ L' ∧ (i.evaluating caller v env n).Alike L' (i'.evaluating caller' v' env n) := by
  have hset := h.setting hcaller
  exact (State.alike_nest hset.toAkin h.machine .nil hv env).after hset
    (within_evaluating i caller v env) n hgrow

/-- What evaluations come to: neither ends, or both do, alike. -/
inductive Ended (L : Link K) : Option (Except EvalError Value × Interpreter) →
    Option (Except EvalError Value × Interpreter) → Prop
  | unfinished : Ended L none none
  | finished {L' : Link K} {a b : Except EvalError Value} {i i' : Interpreter} (le : L ≤ L')
    (result : Answer K.error (Value.Alike L') a b) (interpreter : i.Alike L' i') :
    Ended L (some (a, i)) (some (b, i'))

private theorem Ended.of_le (hle : L ≤ L') {x y : Option (Except EvalError Value × Interpreter)}
    (h : Ended L' x y) : Ended L x y := by
  cases h with
  | unfinished => exact .unfinished
  | finished le result interpreter => exact .finished (hle.trans le) result interpreter

/-- Evaluations of alike expressions end in the same number of steps, and alike. -/
theorem Alike.evaluate (h : i.Alike L i') (hcaller : caller.Alike L caller') (hv : v.Alike L v')
    (env : FrameId) (fuel : Nat)
    (hgrow : K.strict ∨ ∀ k < fuel, (i.evaluating caller v env k).machine.symbols.CanGrow ∧
      (i'.evaluating caller' v' env k).machine.symbols.CanGrow) :
    Ended L (i.evaluate fuel caller v env) (i'.evaluate fuel caller' v' env) := by
  have hset := h.setting hcaller
  have hrun := (State.alike_nest hset.toAkin h.machine .nil hv env).run hset
    (within_evaluating i caller v env) fuel hgrow
  rw [evaluate_eq_runFrom, evaluate_eq_runFrom, runFrom_eq_map, runFrom_eq_map]
  generalize State.run (i.setting caller) fuel _ = x at hrun ⊢
  generalize State.run (i'.setting caller') fuel _ = y at hrun ⊢
  cases hrun with
  | none => exact .unfinished
  | some hfinished =>
    obtain ⟨L', hle, hfinished⟩ := hfinished
    exact .finished hle hfinished.result { h with machine := hfinished.machine }

private theorem Alike.receive (h : i.Alike L i') (hinterns : L.Interns L') {t t' : SymbolTable}
    (ht : L'.Reads t t') {outcome outcome' : Except ReadError (Option Datum)}
    (houtcome : Answer (fun _ => True) (Option.Rel (Datum.Alike L')) outcome outcome') :
    Answer (fun _ => True) (Option.Rel (Value.Alike L')) (i.receive outcome t).1
        (i'.receive outcome' t').1 ∧
      (i.receive outcome t).2.Alike L' (i'.receive outcome' t').2 := by
  have hmachine := h.machine.withSymbols hinterns ht
  cases houtcome with
  | error _ => exact ⟨.error trivial, { h with machine := hmachine }⟩
  | ok hdatum =>
    cases hdatum with
    | none => exact ⟨.ok .none, { h with machine := hmachine }⟩
    | some hd =>
      obtain ⟨hv, hstore⟩ := hmachine.store.load hd
      exact ⟨.ok (.some hv), { h with machine := hmachine.withStore (.refl L') hstore }⟩

structure ReadAlike (L : Link K) (x y : Except ReadError (Option Value) × Reader × Interpreter) :
    Prop where
  outcome : Answer (fun _ => True) (Option.Rel (Value.Alike L)) x.1 y.1
  reader : x.2.1.Alike L y.2.1
  interpreter : x.2.2.Alike L y.2.2

private theorem Alike.readValue (h : i.Alike L i') (hr : r.Alike L r')
    (hroom : Reading.Room K (r.read i.symbols) (r'.read i'.symbols)) :
    ∃ L', L.Interns L' ∧ ReadAlike L' (i.readValue r) (i'.readValue r') := by
  obtain ⟨L', hinterns, hread⟩ := hr.read h.machine.symbols hroom
  obtain ⟨houtcome, hinterpreter⟩ := h.receive hinterns hread.symbols hread.outcome
  rw [readValue_eq, readValue_eq]
  exact ⟨L', hinterns, houtcome, hread.reader, hinterpreter⟩

private theorem HasRoom.read {fuel : Nat} (h : HasRoom (fuel + 1) i r v) (hi : i.symbols.InOrder) :
    ¬ (r.read i.symbols).Full := by
  intro hfull
  have hmoment : (i.receive (r.read i.symbols).outcome (r.read i.symbols).symbols).2.symbols.CanGrow :=
    h _ _ (.read (readValue_eq i r) fuel v)
  rw [symbols_receive] at hmoment
  exact Reader.not_canGrow_of_full hi hfull hmoment

theorem Alike.evalRest (h : i.Alike L i') (hr : r.Alike L r') (hv : v.Alike L v') (fuel : Nat)
    (hroom : K.strict ∨ (HasRoom fuel i r v ∧ HasRoom fuel i' r' v')) :
    Ended L (i.evalRest fuel r v) (i'.evalRest fuel r' v') := by
  induction fuel generalizing L i i' r r' v v' with
  | zero => exact .unfinished
  | succ fuel ih =>
    obtain ⟨L₁, hinterns, hread⟩ := h.readValue hr
      (hroom.imp id fun hroom => ⟨hroom.1.read h.machine.symbols.left,
        hroom.2.read h.machine.symbols.right⟩)
    rw [Interpreter.evalRest, Interpreter.evalRest]
    rcases hx : i.readValue r with ⟨outcome, after, j⟩
    rcases hy : i'.readValue r' with ⟨outcome', after', j'⟩
    rw [hx, hy] at hread
    obtain ⟨houtcome, hafter, hj⟩ := hread
    have hv₁ := hv.mono hinterns.le
    cases houtcome with
    | error _ =>
      exact .finished hinterns.le
        (.error (K.error_of_not_internal (ReadError.isInternal_toEvalError _))) hj
    | ok hdatum =>
      cases hdatum with
      | none => exact .finished hinterns.le (.ok hv₁) hj
      | @some datum datum' hdatum =>
        have heval := hj.evaluate (Held.alike_mk (.cons hv₁ .nil) []) hdatum j.global fuel
          (hroom.imp id fun hroom k hk => ⟨hroom.1 _ _ (.evaluate hx v hk), by
            have hmoment := hroom.2 _ _ (.evaluate hy v' hk)
            rwa [hj.global] at hmoment⟩)
        refine Ended.of_le hinterns.le ?_
        dsimp only
        rw [hj.global]
        generalize hp : j.evaluate fuel ⟨[v], []⟩ datum j.global = p at heval ⊢
        generalize hq : j'.evaluate fuel ⟨[v'], []⟩ datum' j.global = q at heval ⊢
        cases heval with
        | unfinished => exact .unfinished
        | finished hle hresult hk =>
          cases hresult with
          | error he => exact .finished hle (.error he) hk
          | ok hw =>
            rw [← hj.global] at hq
            exact Ended.of_le hle <| ih hk (hafter.mono hle) hw <|
              hroom.imp id fun hroom => ⟨fun s rd hrest => hroom.1 s rd (.next hx hp hrest),
                fun s rd hrest => hroom.2 s rd (.next hy hq hrest)⟩

theorem Alike.evalSource (h : i.Alike L i') (fuel : Nat) (source : String)
    (hroom : K.strict ∨ (HasRoom fuel i (.ofString source) .unspecified ∧
      HasRoom fuel i' (.ofString source) .unspecified)) :
    Ended L (i.evalSource fuel source) (i'.evalSource fuel source) :=
  h.evalRest (Reader.alike_ofString L source) (.same (v := .unspecified) trivial) fuel hroom

/-- How evaluating the rest of a text ends: there is nothing more to read, or a datum is evaluated and
this is the end, or there is more. -/
theorem evalRest_cases {fuel : Nat} {result : Except EvalError Value} {j : Interpreter}
    (h : i.evalRest (fuel + 1) r v = some (result, j)) :
    (∃ outcome after, i.readValue r = (outcome, after, j) ∧ ∀ datum, outcome ≠ .ok (some datum)) ∨
    ∃ datum after k answer k', i.readValue r = (.ok (some datum), after, k) ∧
      k.evaluate fuel ⟨[v], []⟩ datum k.global = some (answer, k') ∧
      ((∃ e, answer = .error e ∧ k' = j) ∨
        ∃ w, answer = .ok w ∧ k'.evalRest fuel after w = some (result, j)) := by
  rw [Interpreter.evalRest] at h
  rcases hread : i.readValue r with ⟨outcome, after, k⟩
  rw [hread] at h
  rcases outcome with e | _ | datum
  · obtain ⟨-, rfl⟩ := by simpa using h
    exact .inl ⟨.error e, after, rfl, by simp⟩
  · obtain ⟨-, rfl⟩ := by simpa using h
    exact .inl ⟨.ok none, after, rfl, by simp⟩
  · dsimp only at h
    rcases heval : k.evaluate fuel ⟨[v], []⟩ datum k.global with _ | ⟨answer, k'⟩
    · simp [heval] at h
    · refine .inr ⟨datum, after, k, answer, k', rfl, heval, ?_⟩
      rw [heval] at h
      cases answer with
      | error e =>
        obtain ⟨-, rfl⟩ := by simpa using h
        exact .inl ⟨e, rfl, rfl⟩
      | ok w => exact .inr ⟨w, rfl, h⟩

/-! Evaluation leaves the interpreter as it is but for its machine. -/

private theorem exists_machine_readValue {outcome : Except ReadError (Option Value)}
    {after : Reader}
    {j : Interpreter} (h : i.readValue r = (outcome, after, j)) : ∃ m, j = { i with machine := m } := by
  rw [readValue_eq] at h
  obtain rfl : _ = j := congrArg (fun p => p.2.2) h
  match (r.read i.symbols).outcome with
  | .ok (some d) => exact ⟨_, rfl⟩
  | .ok none => exact ⟨_, rfl⟩
  | .error e => exact ⟨_, rfl⟩

private theorem exists_machine_evaluate {fuel : Nat} {env : FrameId}
    {result : Except EvalError Value}
    {j : Interpreter} (h : i.evaluate fuel caller v env = some (result, j)) :
    ∃ m, j = { i with machine := m } := by
  rw [evaluate_eq_runFrom] at h
  exact ⟨j.machine, (runFrom_eq_some h).2⟩

theorem exists_machine_evalRest {fuel : Nat} {result : Except EvalError Value} {j : Interpreter}
    (h : i.evalRest fuel r v = some (result, j)) : ∃ m, j = { i with machine := m } := by
  induction fuel generalizing i r v with
  | zero => simp [Interpreter.evalRest] at h
  | succ fuel ih =>
    rcases evalRest_cases h with ⟨outcome, after, hread, -⟩ |
      ⟨datum, after, k, answer, k', hread, heval, hend⟩
    · exact exists_machine_readValue hread
    · obtain ⟨m, rfl⟩ := exists_machine_readValue hread
      obtain ⟨m', rfl⟩ := exists_machine_evaluate heval
      rcases hend with ⟨e, -, rfl⟩ | ⟨w, -, hrest⟩
      · exact ⟨m', rfl⟩
      · obtain ⟨m'', rfl⟩ := ih hrest
        exact ⟨m'', rfl⟩

section Strict

variable (hK : K.strict)

include hK

private theorem Alike.readValue_some {j : Interpreter} {after : Reader} {datum : Value}
    (h : i.Alike L i) (hr : r.Alike L r) (hread : i.readValue r = (.ok (some datum), after, j)) :
    ∃ L', L ≤ L' ∧ datum.Alike L' datum ∧ after.Alike L' after ∧ j.Alike L' j := by
  obtain ⟨L', hinterns, hboth⟩ := h.readValue hr (.inl hK)
  rw [hread] at hboth
  obtain ⟨houtcome, hafter, hj⟩ := hboth
  cases houtcome with
  | ok hdatum =>
    cases hdatum with
    | some hdatum => exact ⟨L', hinterns.le, hdatum, hafter, hj⟩

/-- Under strict terms an interpreter that is alike to itself passes through states that are. -/
theorem Passes.alike {fuel : Nat} {s : State} {rd : Reader} (hpasses : Passes fuel i r v s rd)
    (h : i.Alike L i) (hr : r.Alike L r) (hv : v.Alike L v) :
    ∃ L', L ≤ L' ∧ s.Alike L' s ∧ rd.Alike L' rd := by
  induction hpasses generalizing L with
  | start fuel i r last => exact ⟨L, le_refl L, State.alike_answer h.machine .nil hv, hr⟩
  | read read fuel last =>
    obtain ⟨L₁, hinterns, hread⟩ := h.readValue hr (.inl hK)
    rw [read] at hread
    exact ⟨L₁, hinterns.le,
      State.alike_answer hread.interpreter.machine .nil (hv.mono hinterns.le), hread.reader⟩
  | @evaluate i j r after datum read last n fuel enough =>
    obtain ⟨L₁, hle₁, hdatum, hafter, hj⟩ := h.readValue_some hK hr read
    have hcaller := Held.alike_mk (.cons (hv.mono hle₁) .nil) []
    obtain ⟨L₂, hle₂, hs⟩ := hj.evaluating hcaller hdatum j.global n (.inl hK)
    exact ⟨L₂, hle₁.trans hle₂, hs, hafter.mono hle₂⟩
  | @next i j k r after rd datum last v fuel s read eval rest ih =>
    obtain ⟨L₁, hle₁, hdatum, hafter, hj⟩ := h.readValue_some hK hr read
    have hcaller := Held.alike_mk (.cons (hv.mono hle₁) .nil) []
    have hended := hj.evaluate hcaller hdatum j.global fuel (.inl hK)
    rw [eval] at hended
    cases hended with
    | finished hle₂ hresult hk =>
      cases hresult with
      | ok hw =>
        obtain ⟨L₃, hle₃, hs⟩ := ih hk (hafter.mono hle₂) hw
        exact ⟨L₃, (hle₁.trans hle₂).trans hle₃, hs⟩

theorem Alike.of_evalSource {fuel : Nat} {source : String} {result : Except EvalError Value}
    {j : Interpreter} (h : i.Alike L i) (hrun : i.evalSource fuel source = some (result, j)) :
    ∃ L' : Link K, Answer K.error (Value.Alike L') result result ∧ j.Alike L' j := by
  have hended := h.evalSource fuel source (.inl hK)
  rw [hrun] at hended
  cases hended with
  | @finished L' _ _ _ _ _ hresult hj => exact ⟨L', hresult, hj⟩

end Strict

end Interpreter
end MiniScheme
