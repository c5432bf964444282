import MiniScheme.Proofs.Interpreter.CountUp
import MiniScheme.Proofs.SharedSymbols
/-! # Tail calls cost no depth

A loop that calls itself in tail position runs in the depth of one of its turns. Put together: what a
form and a call leave at their end takes their place, so the depth of a chain of such transfers is
that of its deepest step, and counting up to any integer takes three levels.
-/
namespace MiniScheme

open State (applyClosure after OperatorIs Course FormCourse Calls Evaluates TailChain peak rise)

/-- Tail transfers cost no depth.

An expression at the end of a form takes its place, a call that of its application, and the last
expression of a closure's body that of the call: nothing new waits, and call stack and depth are what
they were. Only what stands before the end is evaluated one level deeper. Whenever an evaluation comes
to a moment when nothing waits but what waited at its start, it has the call stack and the depth of
its start. So the largest depth of a chain of transfers is that of its start and the greatest number
of levels that the nested evaluations of one of its steps take; if no step takes more than `r` levels,
no chain does.

An interpreter that was built with the standard library has these forms under their names. In it, and
in any other where the names in `count-up` have their meaning, `count-up` can be defined and then
gives `n` for `(count-up n 0)`, for every integer `n` that is not negative and under every limit that
allows three levels more. -/
theorem tail_transfers_cost_no_depth :
    (∀ (setting : Setting) (form : TailForm) (f : SpecialForm), setting.library.form f = form.rule →
      ∀ (m m' : Machine) (ws : List Waiting) (c : CellId) (env : FrameId),
        OperatorIs setting ws m c env (.form f) m' →
        ∃ k, ∀ n, FormCourse setting ws form m'.store (m.store.rest c) m
          ⟨m, .eval (.pair c) env, ws⟩ (k + n)) ∧
    (∀ (setting : Setting) (m m' : Machine) (ws : List Waiting) (c : CellId) (env : FrameId)
      (p : ClosureId), OperatorIs setting ws m c env (.closure p) m' →
        ∃ k, ∀ n, Course setting ws (fun _ => True) (Calls setting ws p) (fun _ => False) m
          ⟨m, .eval (.pair c) env, ws⟩ (k + n)) ∧
    (∀ (setting : Setting) (m : Machine) (ws : List Waiting) (c : ClosureId) (args : List Value)
      (context : Held) (n : Nat),
      Course setting ws (· ∈ (m.store.closure c).body.dropLast)
        (Evaluates ws ((m.store.closure c).body.getLast? = some ·)) (fun _ => False) m
        (applyClosure setting m ws c args context true) n) ∧
    (∀ (setting : Setting) (s : State) (n : Nat),
      (∀ k ≤ n, ¬ (after setting k s).AnswersTo s.waiting) →
      (after setting n s).waiting = s.waiting →
      s.machine.SameStack (after setting n s).machine) ∧
    (∀ (setting : Setting) (ws : List Waiting) (s : State) (k : Nat) (moment : Nat → Nat),
      TailChain setting ws s k moment →
      (∀ i ≤ k, s.machine.SameStack (after setting (moment i) s).machine) ∧
      peak setting s 0 (moment k) = s.machine.depth +
        ((Finset.range k).sup fun i => rise setting ws s (moment i) (moment (i + 1))) ∧
      ∀ r, (∀ i < k, rise setting ws s (moment i) (moment (i + 1)) ≤ r) →
        peak setting s 0 (moment k) ≤ s.machine.depth + r) ∧
    (∀ (config : Config) (t : SymbolTable) (i : Interpreter), config.standard = true → t.InOrder →
      Interpreter.build config t = .ok i → i.Grounded config.maxDepth ∧
        (∀ form : TailForm, ∃ f, i.Defines form.name (.form f) ∧ i.library.form f = form.rule) ∧
        ∀ (x : CountUp) (t' : SymbolTable), i.symbols.Grows t' → x.Named t' →
          x.Provided i.library i.global i.machine.store) ∧
    ∀ (x : CountUp) (i : Interpreter), x.Provided i.library i.global i.machine.store →
      (∀ limit, i.maxDepth = some limit → i.machine.depth + 3 ≤ limit) →
      ∀ source t, i.Reads source x.definition t →
        ∃ fuel j, i.evalSource fuel source = some (.ok (.symbol x.countUp), j) ∧
          ∀ n : Int64, 0 ≤ n.toInt → ∀ source' t', j.Reads source' (x.call n) t' →
            ∃ fuel j', j.evalSource fuel source' = some (.ok (.int n), j') := by
  refine ⟨?_, ?_, ?_, ?_, ?_, ?_, ?_⟩
  · intro setting form f hform m m' ws c env hoperator
    exact State.course_form form hform hoperator
  · intro setting m m' ws c env p hoperator
    exact State.course_call hoperator
  · intro setting m ws c args context n
    exact State.course_applyClosure c args context n
  · intro setting s n hopen hwaiting
    exact State.sameStack_of_waiting rfl hopen hwaiting
  · intro setting ws s k moment hchain
    exact ⟨fun i hi => hchain.sameStack hi, hchain.peak_eq, fun r hr => hchain.peak_le hr⟩
  · intro config t i hstandard ht hi
    obtain ⟨hgrounded, hforms, -⟩ := Interpreter.defines_build hstandard ht hi
    refine ⟨hgrounded, fun form => hforms _ form.mem_forms, ?_⟩
    intro x t' hgrows hx
    exact CountUp.provided_build hstandard ht hi hgrows hx
  · intro x i hprovided hlimit source t hsource
    exact hprovided.counts hlimit hsource

theorem Interpreter.reads_of_outcomes {i : Interpreter} {source : String} {d : Datum}
    {first : Reading (Option Datum)} (hfirst : (Reader.ofString source).read i.symbols = first)
    (h : first.outcome.toOption = some (some d))
    (hend : (first.reader.read first.symbols).outcome.toOption = some none) :
    i.Reads source d first.symbols := by
  obtain ⟨outcome, r, t⟩ := first
  cases outcome with
  | error e => simp [Except.toOption] at h
  | ok found =>
    obtain rfl := Option.some.inj h
    refine ⟨r, hfirst, ?_⟩
    revert hend
    cases (r.read t).outcome with
    | error e => simp [Except.toOption]
    | ok found => exact fun hend => congrArg Except.ok (Option.some.inj hend)

/-- The symbols of the names in the loop in the interpreter below. -/
def CountUp.standard : CountUp where
  define := ⟨6, "define"⟩
  conditional := ⟨1, "if"⟩
  equals := ⟨21, "="⟩
  minus := ⟨12, "-"⟩
  plus := ⟨11, "+"⟩
  countUp := ⟨56, "count-up"⟩
  n := ⟨57, "n"⟩
  acc := ⟨58, "acc"⟩

/-- Three levels are enough to count up to the largest integer. -/
theorem countUp_reaches_largest :
    ∃ i fuel j fuel' j',
      Interpreter.build { maxDepth := some 3 } (.withCapacity 100 none .polynomial) = .ok i ∧
      i.evalSource fuel
          "(define (count-up n acc) (if (= n 0) acc (count-up (- n 1) (+ acc 1))))" =
        some (.ok (.symbol ⟨56, "count-up"⟩), j) ∧
      j.evalSource fuel' "(count-up 9223372036854775807 0)" =
        some (.ok (.int 9223372036854775807), j') := by
  let source := "(define (count-up n acc) (if (= n 0) acc (count-up (- n 1) (+ acc 1))))"
  let call := "(count-up 9223372036854775807 0)"
  let x := CountUp.standard
  let table := SymbolTable.withCapacity 100 none .polynomial
  have hrun : ((Interpreter.build { maxDepth := some 3 } table).toOption.bind fun i =>
      (i.evalSource 60 source).map fun finished =>
        let first := (Reader.ofString source).read i.symbols
        let second := (Reader.ofString call).read finished.2.symbols
        ([first.outcome, (first.reader.read first.symbols).outcome, second.outcome,
          (second.reader.read second.symbols).outcome].map Except.toOption,
          CountUp.names.map first.symbols.lookup)) =
      some ([some (some x.definition), some none, some (some (x.call 9223372036854775807)),
        some none], x.symbols.map some) := by
    decide +kernel
  obtain ⟨i, hi, hrun⟩ := Option.bind_eq_some_iff.mp hrun
  obtain ⟨finished, hfinished, hreads⟩ := Option.map_eq_some_iff.mp hrun
  simp only [List.map_cons, List.map_nil, Prod.mk.injEq, List.cons.injEq, and_true] at hreads
  obtain ⟨⟨hdefinition, hend, hcall, hend'⟩, hnamed⟩ := hreads
  have hi := Interpreter.build_eq_ok hi
  have htable := SymbolTable.inOrder_withCapacity 100 none .polynomial
  obtain ⟨-, -, -, -, -, hbuilt, hcounts⟩ := tail_transfers_cost_no_depth
  obtain ⟨hgrounded, -, hprovides⟩ := hbuilt _ _ i rfl htable hi
  have hgrows := Reader.grows_read hgrounded.symbols (Reader.ofString source)
  have hprovided := hprovides x _ hgrows hnamed
  have hlimit : ∀ limit, i.maxDepth = some limit → i.machine.depth + 3 ≤ limit := by
    intro limit hmax
    rw [hgrounded.maxDepth] at hmax
    obtain rfl := Option.some.inj hmax
    rw [hgrounded.depth]
  obtain ⟨fuel, j, heval, hcounts⟩ := hcounts x i hprovided hlimit source _
    (Interpreter.reads_of_outcomes rfl hdefinition hend)
  have hsame : finished.2 = j := by
    have hmax := Session.evalRest_mono (Nat.le_max_left 60 fuel) hfinished
    have hmax' := Session.evalRest_mono (Nat.le_max_right 60 fuel) heval
    exact congrArg Prod.snd (Option.some.inj (hmax.symm.trans hmax'))
  rw [hsame] at hcall hend'
  obtain ⟨fuel', j', heval'⟩ := hcounts 9223372036854775807 (by decide) call _
    (Interpreter.reads_of_outcomes rfl hcall hend')
  exact ⟨i, fuel, j, fuel', j', hi, heval, heval'⟩

end MiniScheme
