import MiniScheme.Proofs.Machine.Run
import MiniScheme.Proofs.Reader.Again
import MiniScheme.Session
/-! # Running a text

A text is run by reading and evaluating one datum after the other, up to the first that cannot be
read or fails. Evaluating a whole source and feeding a session line by line both do this; they
differ in the values that they hold on to meanwhile. A run is stated for any such choice.
-/
namespace MiniScheme

namespace Interpreter

/-- The interpreter once a reading has left this table, and the datum with its pairs. -/
def receive (i : Interpreter) (outcome : Except ReadError (Option Datum)) (symbols : SymbolTable) :
    Except ReadError (Option Value) × Interpreter :=
  match outcome with
  | .ok (some d) =>
    (.ok (some (i.machine.store.load d).1),
      { i with machine :=
        { i.machine with store := (i.machine.store.load d).2, symbols := symbols } })
  | .ok none => (.ok none, i.withSymbols symbols)
  | .error e => (.error e, i.withSymbols symbols)

theorem readValue_eq (i : Interpreter) (r : Reader) :
    i.readValue r =
      ((i.receive (r.read i.symbols).outcome (r.read i.symbols).symbols).1,
        (r.read i.symbols).reader,
        (i.receive (r.read i.symbols).outcome (r.read i.symbols).symbols).2) := by
  obtain ⟨⟨store, symbols, calls, depth, counters, output⟩, library, maxDepth, global⟩ := i
  simp only [readValue, Interpreter.symbols]
  rcases r.read symbols with ⟨outcome, r', symbols'⟩
  match outcome with
  | .ok (some d) => rfl
  | .ok none => rfl
  | .error e => rfl

theorem symbols_receive (i : Interpreter) (outcome : Except ReadError (Option Datum))
    (symbols : SymbolTable) : (i.receive outcome symbols).2.symbols = symbols := by
  match outcome with
  | .ok (some d) => rfl
  | .ok none => rfl
  | .error e => rfl

theorem grows_readValue {i j : Interpreter} {r after : Reader}
    {outcome : Except ReadError (Option Value)} (h : i.symbols.InOrder)
    (hread : i.readValue r = (outcome, after, j)) : i.symbols.Grows j.symbols := by
  have hj : j = (i.receive (r.read i.symbols).outcome (r.read i.symbols).symbols).2 := by
    rw [readValue_eq] at hread
    exact (congrArg (fun p => p.2.2) hread).symm
  rw [hj, symbols_receive]
  exact Reader.grows_read h r

theorem receive_withSymbols (i : Interpreter) (outcome : Except ReadError (Option Datum))
    (symbols symbols' : SymbolTable) :
    (i.withSymbols symbols').receive outcome symbols = i.receive outcome symbols := by
  match outcome with
  | .ok (some d) => rfl
  | .ok none => rfl
  | .error e => rfl

theorem readValue_of_read {i : Interpreter} {r after : Reader} {symbols : SymbolTable}
    {outcome : Except ReadError (Option Datum)}
    (h : r.read i.symbols = ⟨outcome, after, symbols⟩) :
    i.readValue r = ((i.receive outcome symbols).1, after, (i.receive outcome symbols).2) := by
  rw [readValue_eq, h]

theorem read_of_readValue {i i' : Interpreter} {r after : Reader}
    {received : Except ReadError (Option Value)} (h : i.readValue r = (received, after, i')) :
    ∃ outcome symbols, r.read i.symbols = ⟨outcome, after, symbols⟩ ∧
      i.receive outcome symbols = (received, i') := by
  rcases hread : r.read i.symbols with ⟨outcome, after', symbols⟩
  rw [readValue_of_read hread] at h
  obtain ⟨hreceived, rfl, hi⟩ := by simpa only [Prod.mk.injEq] using h
  exact ⟨outcome, symbols, rfl, Prod.ext hreceived hi⟩

theorem read_of_readValue_some {i i' : Interpreter} {r after : Reader} {v : Value}
    (h : i.readValue r = (.ok (some v), after, i')) :
    ∃ d symbols, r.read i.symbols = ⟨.ok (some d), after, symbols⟩ ∧
      i.receive (.ok (some d)) symbols = (.ok (some v), i') := by
  obtain ⟨outcome, symbols, hread, hreceive⟩ := read_of_readValue h
  match outcome with
  | .ok (some d) => exact ⟨d, symbols, hread, hreceive⟩
  | .ok none => simp [receive] at hreceive
  | .error e => simp [receive] at hreceive

theorem read_of_readValue_none {i i' : Interpreter} {r after : Reader}
    (h : i.readValue r = (.ok none, after, i')) :
    r.read i.symbols = ⟨.ok none, after, i'.symbols⟩ ∧ i' = i.withSymbols i'.symbols := by
  obtain ⟨outcome, symbols, hread, hreceive⟩ := read_of_readValue h
  match outcome with
  | .ok (some d) => simp [receive] at hreceive
  | .ok none =>
    obtain ⟨-, rfl⟩ := Prod.mk.inj hreceive
    exact ⟨hread, rfl⟩
  | .error e => simp [receive] at hreceive

theorem read_of_readValue_error {i i' : Interpreter} {r after : Reader} {e : ReadError}
    (h : i.readValue r = (.error e, after, i')) :
    r.read i.symbols = ⟨.error e, after, i'.symbols⟩ ∧ i' = i.withSymbols i'.symbols := by
  obtain ⟨outcome, symbols, hread, hreceive⟩ := read_of_readValue h
  match outcome with
  | .ok (some d) => simp [receive] at hreceive
  | .ok none => simp [receive] at hreceive
  | .error e' =>
    obtain ⟨he, rfl⟩ := Prod.mk.inj hreceive
    obtain rfl := Except.error.inj he
    exact ⟨hread, rfl⟩

theorem evaluate_unique {i : Interpreter} {fuel fuel' : Nat} {caller : Held} {expr : Value}
    {env : FrameId} {finished finished' : Except EvalError Value × Interpreter}
    (h : i.evaluate fuel caller expr env = some finished)
    (h' : i.evaluate fuel' caller expr env = some finished') : finished = finished' := by
  have hmax := evaluate_mono (Nat.le_max_left fuel fuel') h
  rw [evaluate_mono (Nat.le_max_right fuel fuel') h'] at hmax
  exact (Option.some.inj hmax).symm

end Interpreter

namespace Session

inductive Ending where
  | finished
  | unreadable (e : ReadError)
  | failed (e : EvalError)

/-- Values of data, the last one first, each with the number of characters behind its datum. -/
abbrev Done := List (Nat × Value)

/-- The text at `r` is run from `i`, with `done` before it: it ends like this, with these values and
the ones before, and leaves this interpreter. While a datum is evaluated, the caller holds what `hold`
picks of the values before it, knowing the number of characters behind the datum. -/
inductive Runs (hold : Done → Nat → List Value) :
    Interpreter → Reader → Done → Ending → Done → Interpreter → Prop
  | finished {i j : Interpreter} {r after : Reader} {done : Done}
    (read : i.readValue r = (.ok none, after, j)) : Runs hold i r done .finished done j
  | unreadable {i j : Interpreter} {r after : Reader} {done : Done} {e : ReadError}
    (read : i.readValue r = (.error e, after, j)) : Runs hold i r done (.unreadable e) done j
  | failed {i i' j : Interpreter} {r after : Reader} {done : Done} {datum : Value} {fuel : Nat}
    {e : EvalError} (read : i.readValue r = (.ok (some datum), after, i'))
    (eval : i'.evaluate fuel ⟨hold done after.cursor.remaining, []⟩ datum i'.global =
      some (.error e, j)) : Runs hold i r done (.failed e) done j
  | next {i i' i'' j : Interpreter} {r after : Reader} {done final : Done} {datum v : Value}
    {fuel : Nat} {ending : Ending} (read : i.readValue r = (.ok (some datum), after, i'))
    (eval : i'.evaluate fuel ⟨hold done after.cursor.remaining, []⟩ datum i'.global =
      some (.ok v, i''))
    (rest : Runs hold i'' after ((after.cursor.remaining, v) :: done) ending final j) :
    Runs hold i r done ending final j

variable {hold : Done → Nat → List Value} {i i' i'' j j' : Interpreter} {r after : Reader}
  {done final final' : Done} {ending ending' : Ending} {datum v : Value} {fuel fuel' : Nat}

theorem runs_next_iff (hread : i.readValue r = (.ok (some datum), after, i'))
    (heval : i'.evaluate fuel ⟨hold done after.cursor.remaining, []⟩ datum i'.global =
      some (.ok v, i'')) :
    Runs hold i'' after ((after.cursor.remaining, v) :: done) ending final j ↔
      Runs hold i r done ending final j := by
  refine ⟨.next hread heval, ?_⟩
  intro h
  cases h with
  | finished hread' => simp [hread] at hread'
  | unreadable hread' => simp [hread] at hread'
  | failed hread' heval' =>
    obtain ⟨rfl, rfl, rfl⟩ : _ ∧ _ ∧ _ := by simpa [hread] using hread'
    simpa using Interpreter.evaluate_unique heval heval'
  | next hread' heval' rest =>
    obtain ⟨rfl, rfl, rfl⟩ : _ ∧ _ ∧ _ := by simpa [hread] using hread'
    obtain ⟨rfl, rfl⟩ : _ ∧ _ := by simpa using Interpreter.evaluate_unique heval heval'
    exact rest

/-- A run comes to one end only. -/
theorem Runs.unique (h : Runs hold i r done ending final j)
    (h' : Runs hold i r done ending' final' j') : ending = ending' ∧ final = final' ∧ j = j' := by
  induction h with
  | finished hread =>
    cases h' with
    | finished hread' =>
      obtain ⟨-, rfl⟩ : _ ∧ _ := by simpa [hread] using hread'
      exact ⟨rfl, rfl, rfl⟩
    | unreadable hread' => simp [hread] at hread'
    | failed hread' _ => simp [hread] at hread'
    | next hread' _ _ => simp [hread] at hread'
  | unreadable hread =>
    cases h' with
    | finished hread' => simp [hread] at hread'
    | unreadable hread' =>
      obtain ⟨rfl, -, rfl⟩ : _ ∧ _ ∧ _ := by simpa [hread] using hread'
      exact ⟨rfl, rfl, rfl⟩
    | failed hread' _ => simp [hread] at hread'
    | next hread' _ _ => simp [hread] at hread'
  | failed hread heval =>
    cases h' with
    | finished hread' => simp [hread] at hread'
    | unreadable hread' => simp [hread] at hread'
    | failed hread' heval' =>
      obtain ⟨rfl, rfl, rfl⟩ : _ ∧ _ ∧ _ := by simpa [hread] using hread'
      obtain ⟨rfl, rfl⟩ : _ ∧ _ := by simpa using Interpreter.evaluate_unique heval heval'
      exact ⟨rfl, rfl, rfl⟩
    | next hread' heval' _ =>
      obtain ⟨rfl, rfl, rfl⟩ : _ ∧ _ ∧ _ := by simpa [hread] using hread'
      simpa using Interpreter.evaluate_unique heval heval'
  | next hread heval _ ih => exact ih ((runs_next_iff hread heval).mpr h')

def Done.last (done : Done) : Value :=
  match done with
  | [] => .unspecified
  | newest :: _ => newest.2

/-- Holding on to the value before and to nothing else. -/
def newest (done : Done) (_ : Nat) : List Value := [done.last]

/-- The result of a source, given how its run has ended. -/
def Ending.result (done : Done) : Ending → Except EvalError Value
  | finished => .ok done.last
  | unreadable e => .error e.toEvalError
  | failed e => .error e

theorem evalRest_mono (hle : fuel ≤ fuel') {finished : Except EvalError Value × Interpreter}
    (h : i.evalRest fuel r v = some finished) : i.evalRest fuel' r v = some finished := by
  induction fuel generalizing i r v fuel' with
  | zero => simp [Interpreter.evalRest] at h
  | succ fuel ih =>
    obtain ⟨fuel', rfl⟩ := Nat.exists_eq_add_of_le' (Nat.le_trans (Nat.succ_pos fuel) hle)
    have hle := Nat.le_of_succ_le_succ hle
    rw [Interpreter.evalRest] at h ⊢
    rcases hread : i.readValue r with ⟨outcome, after, i'⟩
    rw [hread] at h
    match outcome with
    | .ok none => exact h
    | .error e => exact h
    | .ok (some datum) =>
      dsimp only at h ⊢
      cases heval : i'.evaluate fuel ⟨[v], []⟩ datum i'.global with
      | none => simp [heval] at h
      | some answer =>
        rw [heval] at h
        rw [Interpreter.evaluate_mono hle heval]
        obtain ⟨result, i''⟩ := answer
        cases result with
        | ok v => exact ih hle h
        | error e => exact h

theorem evalRest_runs {result : Except EvalError Value}
    (h : i.evalRest fuel r v = some (result, j)) (hv : done.last = v) :
    ∃ ending final, Runs newest i r done ending final j ∧ result = ending.result final := by
  induction fuel generalizing i r v done with
  | zero => simp [Interpreter.evalRest] at h
  | succ fuel ih =>
    rw [Interpreter.evalRest] at h
    rcases hread : i.readValue r with ⟨outcome, after, i'⟩
    rw [hread] at h
    match outcome with
    | .ok none =>
      obtain ⟨rfl, rfl⟩ : _ ∧ _ := by simpa using h
      exact ⟨.finished, done, .finished hread, congrArg Except.ok hv.symm⟩
    | .error e =>
      obtain ⟨rfl, rfl⟩ : _ ∧ _ := by simpa using h
      exact ⟨.unreadable e, done, .unreadable hread, rfl⟩
    | .ok (some datum) =>
      dsimp only at h
      rw [← hv] at h
      cases heval : i'.evaluate fuel ⟨[done.last], []⟩ datum i'.global with
      | none => simp [heval] at h
      | some answer =>
        rw [heval] at h
        obtain ⟨answer, i''⟩ := answer
        cases answer with
        | ok w =>
          have hlast : Done.last ((after.cursor.remaining, w) :: done) = w := rfl
          obtain ⟨ending, final, hrest, hresult⟩ := ih h hlast
          exact ⟨ending, final, .next hread heval hrest, hresult⟩
        | error e =>
          obtain ⟨rfl, rfl⟩ : _ ∧ _ := by simpa using h
          exact ⟨.failed e, done, .failed hread heval, rfl⟩

private theorem Runs.evalRest (h : Runs newest i r done ending final j) (hv : done.last = v) :
    ∃ fuel, i.evalRest fuel r v = some (ending.result final, j) := by
  induction h generalizing v with
  | finished hread =>
    refine ⟨1, ?_⟩
    simp only [Interpreter.evalRest, hread, Ending.result, hv]
  | unreadable hread =>
    refine ⟨1, ?_⟩
    rw [Interpreter.evalRest, hread]
    rfl
  | @failed i i' j r after done datum fuel e hread heval =>
    refine ⟨fuel + 1, ?_⟩
    have heval : i'.evaluate fuel ⟨[v], []⟩ datum i'.global = some (.error e, j) := by
      rw [← hv]
      exact heval
    simp only [Interpreter.evalRest, hread, heval]
    rfl
  | @next i i' i'' j r after done final datum w fuel ending hread heval _ ih =>
    obtain ⟨fuel', hrest⟩ := ih (v := w) rfl
    refine ⟨max fuel fuel' + 1, ?_⟩
    have heval : i'.evaluate fuel ⟨[v], []⟩ datum i'.global = some (.ok w, i'') := by
      rw [← hv]
      exact heval
    simp only [Interpreter.evalRest, hread,
      Interpreter.evaluate_mono (Nat.le_max_left fuel fuel') heval]
    exact evalRest_mono (Nat.le_max_right fuel fuel') hrest

/-- What a source comes to is what its run comes to, with the value before held. -/
theorem evalSource_iff_runs (i : Interpreter) (source : String) (result : Except EvalError Value)
    (j : Interpreter) :
    (∃ fuel, i.evalSource fuel source = some (result, j)) ↔
      ∃ ending final, Runs newest i (Reader.ofString source) [] ending final j ∧
        result = ending.result final := by
  refine ⟨?_, ?_⟩
  · rintro ⟨fuel, h⟩
    exact evalRest_runs h rfl
  · rintro ⟨ending, final, hruns, rfl⟩
    exact hruns.evalRest rfl

end Session
end MiniScheme
