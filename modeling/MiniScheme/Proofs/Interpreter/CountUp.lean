import MiniScheme.Proofs.Interpreter.StandardNames
import MiniScheme.Proofs.Machine.TailTransfers
import MiniScheme.Proofs.Session.Runs
import MiniScheme.Proofs.Store.Spelling
/-! # Counting up

The loop `(define (count-up n acc) (if (= n 0) acc (count-up (- n 1) (+ acc 1))))` calls itself in
tail position. One turn of it takes two levels of depth above its own, whatever the number of turns
before it; so three levels suffice to count up to any integer.
-/
namespace MiniScheme

namespace Procedures

variable {a b r : Int64}

private theorem equals_ints (a b : Int64) (store : Store) :
    comparison "=" Ordering.isEq [.int a, .int b] store =
      .done (.bool (decide (a.toInt = b.toInt))) store := by
  have hchain : Number.chain Ordering.isEq [.int a, .int b] = decide (a.toInt = b.toInt) := by
    simp only [Number.chain, Number.compare?, Option.any_some, Bool.and_true]
    rw [Bool.eq_iff_iff, Ordering.isEq_iff_eq_eq, compare_eq_iff_eq, decide_eq_true_iff]
  simp only [comparison, numbers, numbersAfter, Number.ofValue?, bind, pure, Interaction.bind,
    List.reverse_cons, List.reverse_nil, List.nil_append, List.singleton_append, hchain]

private theorem subtract_ints (h : Word.sub? a b = some r) (store : Store) :
    subtract [.int a, .int b] store = .done (.int r) store := by
  simp [subtract, numbers₁, numbers, numbersAfter, Number.ofValue?, bind, pure, Interaction.bind,
    Operation.fold, Operation.apply, Operation.subtraction, h, ofNumber, Native.ofExcept,
    Interaction.ofExcept, Except.map, Number.toValue]

private theorem add_ints (h : Word.add? a b = some r) (store : Store) :
    add [.int a, .int b] store = .done (.int r) store := by
  have hzero : Word.add? 0 a = some a := by
    rw [Word.add?, Int64.toInt_zero, Int.zero_add, Word.ofInt?_toInt]
  simp [add, numbers, numbersAfter, Number.ofValue?, bind, pure, Interaction.bind,
    Operation.fold, Operation.apply, Operation.addition, h, hzero, ofNumber, Native.ofExcept,
    Interaction.ofExcept, Except.map, Number.toValue]

end Procedures

namespace State

variable {setting : Setting} {store : Store} {depth : Nat} {env : FrameId} {v : Value}

private theorem settles_symbol {x : Symbol} {u : Value} (hspells : store.Spells v (.symbol x))
    (hx : store.lookup env x = .ok u) (hallows : setting.Allows depth) :
    Settles setting store depth env v u := by
  rw [hspells.symbol]
  exact (yields_symbol hx).settles hallows

private theorem settles_int {k : Int64} (hspells : store.Spells v (.int k))
    (hallows : setting.Allows depth) : Settles setting store depth env v (.int k) := by
  rw [hspells.int]
  exact (yields_int k).settles hallows

theorem settles_binary {op y : Symbol} {k : Int64} {b : Builtin} {u r : Value}
    (hspells : store.Spells v (.list [.symbol op, .symbol y, .int k]))
    (hop : store.lookup env op = .ok (.builtin b)) (harity : b.arity.accepts 2 = true)
    (hy : store.lookup env y = .ok u)
    (hvalue : setting.library.procedure b [u, .int k] store = .done r store)
    (hallows : setting.Allows (depth + 1)) : Settles setting store depth env v r := by
  obtain ⟨c, rfl, hhead, items, hlists, -, hitems⟩ := hspells.application
  simp only [List.forall₂_cons_right_iff, List.forall₂_nil_right_iff] at hitems
  obtain ⟨w, _, hw, ⟨w', _, hw', rfl, rfl⟩, rfl⟩ := hitems
  have hoperator : Settles setting store (depth + 1) env (store.first c) (.builtin b) :=
    settles_symbol hhead hop hallows
  have hoperands : List.Forall₂ (Settles setting store (depth + 1) env) [w, w'] [u, .int k] :=
    .cons (settles_symbol hw hy hallows) (.cons (settles_int hw' hallows) .nil)
  exact (yields_builtin hoperator hlists hoperands harity hvalue).settles
    (hallows.mono (Nat.le_succ depth))

theorem conditional_asks {operands test consequent alternative : Value}
    (hspine : store.spine operands = .proper [test, consequent, alternative]) (env : FrameId) :
    ∃ (held : Held) (resume : Except EvalError Value → Native Outcome),
      Forms.conditional operands env store = .eval test env held store resume ∧
      ∀ v store, resume (.ok v) store =
        .done (.tail (if v.isTrue then consequent else alternative) env) store := by
  simp only [Forms.conditional, Forms.operandList, Native.elements, Native.read, bind, hspine,
    Interaction.bind, pure]
  refine ⟨_, _, rfl, ?_⟩
  intro v store
  simp only [Interaction.ofExcept, Interaction.bind]
  cases v.isTrue <;> rfl

theorem proceeds_conditional {m : Machine} (ws : List Waiting) (context : Held)
    {operands test consequent alternative : Value}
    (hspine : store.spine operands = .proper [test, consequent, alternative])
    (htest : Settles setting store depth env test v) (hstore : m.store = store)
    (hdepth : m.depth = depth) :
    ∃ m', m.SameEffects m' ∧ m.SameStack m' ∧
      Proceeds setting ws ⟨m, .native (Forms.conditional operands env) context, ws⟩
        ⟨m', .eval (if v.isTrue then consequent else alternative) env, ws⟩ := by
  subst hstore
  obtain ⟨held, resume, hask, hleave⟩ := conditional_asks hspine env
  obtain ⟨m', hfin, heffects⟩ := htest m (.native resume context held :: ws) rfl hdepth
  refine ⟨m', heffects, hfin.sameStack_nest, ?_⟩
  have hnest : (⟨m, .native (Forms.conditional operands env) context, ws⟩ : State).step setting =
      nest setting m (.native resume context held :: ws) test env := by
    simp only [step, runNative, hask]
  have hbranch : (⟨m', .native (resume (.ok v)) context, ws⟩ : State).step setting =
      ⟨m', .eval (if v.isTrue then consequent else alternative) env, ws⟩ := by
    simp only [step, runNative, hleave]
  apply Proceeds.next not_answersTo_native
  rw [hnest]
  apply hfin.deliver_nest.trans
  apply Proceeds.next not_answersTo_native
  rw [hbranch]
  exact .refl _

end State

namespace Interpreter

variable {i : Interpreter} {source : String} {d : Datum} {t : SymbolTable}

/-- The source is the text of one datum, and this is the table once it is read. -/
def Reads (i : Interpreter) (source : String) (d : Datum) (t : SymbolTable) : Prop :=
  ∃ r, (Reader.ofString source).read i.symbols = ⟨.ok (some d), r, t⟩ ∧
    (r.read t).outcome = .ok none

def loading (i : Interpreter) (d : Datum) (t : SymbolTable) : Machine :=
  { i.machine with store := (i.machine.store.load d).2, symbols := t }

theorem evalSource_of_reads {v : Value} {m : Machine} (h : i.Reads source d t)
    (hallows : (i.setting ⟨[.unspecified], []⟩).Allows i.machine.depth)
    (hfin : State.Finishes (i.setting ⟨[.unspecified], []⟩)
      [.nested (i.machine.store.load d).1 i.global]
      ⟨(i.loading d t).deeper, .eval (i.machine.store.load d).1 i.global,
        [.nested (i.machine.store.load d).1 i.global]⟩ (.ok v) m) :
    ∃ fuel, i.evalSource fuel source =
      some (.ok v, { i with machine := { m with depth := i.machine.depth } }) := by
  obtain ⟨r, hread, hbehind⟩ := h
  have hnest := State.Finishes.nest (m := i.loading d t) hallows hfin
  have hdepth : m.depth - 1 = i.machine.depth := hnest.sameStack_nest.2
  rw [hdepth] at hnest
  obtain ⟨fuel, hrun⟩ := hnest.exists_run
  generalize ({ m with depth := i.machine.depth } : Machine) = m at hrun ⊢
  refine (Session.evalSource_iff_runs i source (.ok v) { i with machine := m }).mpr
    ⟨.finished, [(r.cursor.remaining, v)], ?_, rfl⟩
  have heval : Interpreter.evaluate fuel { i with machine := i.loading d t }
      ⟨[.unspecified], []⟩ (i.machine.store.load d).1 i.global =
        some (.ok v, { i with machine := m }) := by
    rw [evaluate_eq_runFrom, runFrom_eq_map]
    exact congrArg (Option.map _) hrun
  have hend : ({ i with machine := m } : Interpreter).readValue r =
      (.ok none, r.skipBlanks, { i with machine := m }) :=
    readValue_of_read (i := { i with machine := m })
      (Reader.read_at_end (Reader.at_end_of_read hbehind) m.symbols)
  exact .next (readValue_of_read hread) heval (.finished hend)

end Interpreter

theorem SymbolTable.InOrder.distinct {t : SymbolTable} (ht : t.InOrder) {names : List String}
    {xs : List Symbol} (hnames : names.Nodup) (hxs : names.map t.lookup = xs.map some) :
    Symbol.Distinct xs := by
  induction names generalizing xs with
  | nil =>
    obtain rfl : xs = [] := by simpa using hxs.symm
    exact List.nodup_nil
  | cons name names ih =>
    cases xs with
    | nil => simp at hxs
    | cons x xs =>
      obtain ⟨hx, hxs⟩ := List.cons.inj hxs
      obtain ⟨hfresh, hnames⟩ := List.nodup_cons.mp hnames
      refine List.nodup_cons.mpr ⟨?_, ih hnames hxs⟩
      intro hmem
      obtain ⟨y, hy, hsame⟩ := List.mem_map.mp hmem
      obtain ⟨name', hname', hlookup⟩ : ∃ name' ∈ names, t.lookup name' = some y := by
        rw [← List.mem_map, hxs]
        exact List.mem_map_of_mem hy
      obtain rfl := (ht.same_iff hlookup hx).mp ((Symbol.same_iff _ _).mpr hsame)
      exact hfresh hname'

/-- The symbols of the names in the loop. -/
structure CountUp where
  define : Symbol
  conditional : Symbol
  equals : Symbol
  minus : Symbol
  plus : Symbol
  countUp : Symbol
  n : Symbol
  acc : Symbol

namespace CountUp

open Datum (list)

variable {x : CountUp} {l : Library} {s : Store} {outer e : FrameId} {c : ClosureId} {expr : Value}
  {a b : Int64}

/-- `(count-up (- n 1) (+ acc 1))` -/
def again (x : CountUp) : Datum :=
  list [.symbol x.countUp, list [.symbol x.minus, .symbol x.n, .int 1],
    list [.symbol x.plus, .symbol x.acc, .int 1]]

/-- `(if (= n 0) acc (count-up (- n 1) (+ acc 1)))` -/
def body (x : CountUp) : Datum :=
  list [.symbol x.conditional, list [.symbol x.equals, .symbol x.n, .int 0], .symbol x.acc, x.again]

/-- `(define (count-up n acc) (if (= n 0) acc (count-up (- n 1) (+ acc 1))))` -/
def definition (x : CountUp) : Datum :=
  list [.symbol x.define, list [.symbol x.countUp, .symbol x.n, .symbol x.acc], x.body]

/-- `(count-up n 0)` -/
def call (x : CountUp) (n : Int64) : Datum := list [.symbol x.countUp, .int n, .int 0]

def symbols (x : CountUp) : List Symbol :=
  [x.define, x.conditional, x.equals, x.minus, x.plus, x.countUp, x.n, x.acc]

/-- No two names have one symbol. -/
def Apart (x : CountUp) : Prop := Symbol.Distinct x.symbols

/-- The symbol is that of a name which the loop does not bind itself. -/
def Outside (x : CountUp) (y : Symbol) : Prop := x.n.same y = false ∧ x.acc.same y = false

/-- The names that the body takes from outside mean what they do in the standard library. -/
structure Means (x : CountUp) (l : Library) (look : Symbol → Except EvalError Value) : Prop where
  conditional : ∃ f, look x.conditional = .ok (.form f) ∧ l.form f = Forms.conditional
  equals : ∃ b, look x.equals = .ok (.builtin b) ∧ b.arity.accepts 2 = true ∧
    l.procedure b = Procedures.comparison "=" Ordering.isEq
  minus : ∃ b, look x.minus = .ok (.builtin b) ∧ b.arity.accepts 2 = true ∧
    l.procedure b = Procedures.subtract
  plus : ∃ b, look x.plus = .ok (.builtin b) ∧ b.arity.accepts 2 = true ∧
    l.procedure b = Procedures.add

private theorem Means.congr {look look' : Symbol → Except EvalError Value} (h : x.Means l look)
    (heq : ∀ y ∈ [x.conditional, x.equals, x.minus, x.plus], look' y = look y) :
    x.Means l look' := by
  obtain ⟨hconditional, hequals, hminus, hplus⟩ := h
  refine ⟨?_, ?_, ?_, ?_⟩
  · rwa [heq _ (by simp)]
  · rwa [heq _ (by simp)]
  · rwa [heq _ (by simp)]
  · rwa [heq _ (by simp)]

theorem Apart.same_eq_false (h : x.Apart) :
    x.acc.same x.n = false ∧ x.Outside x.countUp ∧
      ∀ y ∈ [x.conditional, x.equals, x.minus, x.plus], x.countUp.same y = false ∧ x.Outside y := by
  simp only [Apart, symbols, Symbol.Distinct, List.map_cons, List.map_nil, List.nodup_cons,
    List.mem_cons, List.not_mem_nil, or_false, not_or] at h
  simp only [Outside, Symbol.same, beq_eq_false_iff_ne, List.forall_mem_cons]
  grind

/-- The frame `outer` is there, and the names that the body takes from outside have their meaning in
it. -/
structure Around (x : CountUp) (l : Library) (outer : FrameId) (s : Store) : Prop where
  rooted : s.Rooted
  outer_lt : outer.index < s.frames.size
  means : x.Means l (s.lookup outer)

private theorem Around.of_frames {s' : Store} (h : x.Around l outer s)
    (hframes : s'.frames = s.frames) :
    x.Around l outer s' := by
  refine ⟨?_, ?_, ?_⟩
  · exact h.rooted.of_parents fun f => by rw [Store.frame_of_frames_eq hframes]
  · rw [hframes]
    exact h.outer_lt
  · exact h.means.congr fun y _ => Store.lookup_of_frames hframes outer y

/-- The loop can be defined in the frame `outer`. -/
structure Provided (x : CountUp) (l : Library) (outer : FrameId) (s : Store) : Prop extends
    Around x l outer s where
  apart : x.Apart
  define : ∃ f, s.lookup outer x.define = .ok (.form f) ∧ l.form f = Forms.define

private theorem Provided.of_frames {s' : Store} (h : x.Provided l outer s)
    (hframes : s'.frames = s.frames) : x.Provided l outer s' := by
  refine ⟨h.toAround.of_frames hframes, h.apart, ?_⟩
  rw [Store.lookup_of_frames hframes]
  exact h.define

def procedure (x : CountUp) (outer : FrameId) (expr : Value) : Closure :=
  ⟨some x.countUp.name, .fixed [x.n, x.acc], [expr], outer⟩

/-- The loop has been defined in the frame `outer` as the closure `c`. -/
structure Defined (x : CountUp) (l : Library) (outer : FrameId) (c : ClosureId) (expr : Value)
    (s : Store) : Prop extends Around x l outer s where
  self : s.lookup outer x.countUp = .ok (.closure c)
  closure : s.closure c = x.procedure outer expr
  spells : s.Spells expr x.body

private theorem Defined.load (h : x.Defined l outer c expr s) (d : Datum) :
    x.Defined l outer c expr (s.load d).2 := by
  obtain ⟨hframes, hclosures⟩ := s.elsewhere_load d
  refine ⟨h.toAround.of_frames hframes, ?_, ?_, ?_⟩
  · rw [Store.lookup_of_frames hframes, h.self]
  · rw [Store.closure, hclosures]
    exact h.closure
  · exact h.spells.extend (s.builds_load d).1

/-- The frame `e` is that of a call with the arguments `a` and `b`. -/
structure Turn (x : CountUp) (outer e : FrameId) (a b : Int64) (s : Store) : Prop where
  n : s.lookup e x.n = .ok (.int a)
  acc : s.lookup e x.acc = .ok (.int b)
  outside : ∀ y, x.Outside y → s.lookup e y = s.lookup outer y

/-- The store with a frame for a call with the arguments `a` and `b`. -/
def enter (x : CountUp) (outer : FrameId) (a b : Int64) (s : Store) : Store :=
  (((s.child outer).2.define ⟨s.frames.size⟩ x.n (.int a)).define ⟨s.frames.size⟩ x.acc (.int b))

theorem Defined.enter (hx : x.Apart) (h : x.Defined l outer c expr s) (a b : Int64) :
    x.Defined l outer c expr (x.enter outer a b s) ∧
      x.Turn outer ⟨s.frames.size⟩ a b (x.enter outer a b s) := by
  have hnew : (⟨s.frames.size⟩ : FrameId).index < (s.child outer).2.frames.size := by
    rw [Store.size_child]
    exact Nat.lt_succ_self _
  have hnew' : (⟨s.frames.size⟩ : FrameId).index <
      ((s.child outer).2.define ⟨s.frames.size⟩ x.n (.int a)).frames.size := by
    rw [Store.size_define]
    exact hnew
  have hkeep (y : Symbol) (hy : x.Outside y) (e : FrameId) :
      (x.enter outer a b s).lookup e y = (s.child outer).2.lookup e y := by
    rw [CountUp.enter, Store.lookup_define_of_ne hnew' hy.2, Store.lookup_define_of_ne hnew hy.1]
  have hold (y : Symbol) (hy : x.Outside y) :
      (x.enter outer a b s).lookup outer y = s.lookup outer y := by
    rw [hkeep y hy, h.rooted.lookup_child_of_lt outer h.outer_lt]
  refine ⟨⟨⟨?_, ?_, ?_⟩, ?_, h.closure, ?_⟩, ⟨?_, ?_, ?_⟩⟩
  · exact ((h.rooted.child h.outer_lt).of_parents (Store.parent_define _ _ _ _)).of_parents
      (Store.parent_define _ _ _ _)
  · rw [CountUp.enter, Store.size_define, Store.size_define]
    exact Nat.lt_trans h.outer_lt hnew
  · exact h.means.congr fun y hy => hold y (hx.same_eq_false.2.2 y hy).2
  · rw [hold _ hx.same_eq_false.2.1, h.self]
  · exact h.spells.extend (Store.extends_of_cells rfl)
  · rw [CountUp.enter, Store.lookup_define_of_ne hnew' hx.same_eq_false.1]
    exact Store.lookup_define_self _ hnew _ _
  · exact Store.lookup_define_self _ hnew' _ _
  · intro y hy
    rw [hkeep y hy, hold y hy, h.rooted.lookup_child h.outer_lt]

/-- The store with a closure for the loop, its name defined in the frame `outer`. -/
def install (x : CountUp) (outer : FrameId) (expr : Value) (s : Store) : Store :=
  (s.newClosure (x.procedure outer expr)).2.define outer x.countUp (.closure ⟨s.closures.size⟩)

private theorem Provided.defined (h : x.Provided l outer s) (hspells : s.Spells expr x.body) :
    x.Defined l outer ⟨s.closures.size⟩ expr (x.install outer expr s) := by
  have hnew : x.Around l outer (s.newClosure (x.procedure outer expr)).2 := h.toAround.of_frames rfl
  refine ⟨⟨?_, ?_, ?_⟩, ?_, ?_, ?_⟩
  · exact hnew.rooted.of_parents (Store.parent_define _ _ _ _)
  · rw [install, Store.size_define]
    exact hnew.outer_lt
  · exact hnew.means.congr fun y hy =>
      Store.lookup_define_of_ne hnew.outer_lt (h.apart.same_eq_false.2.2 y hy).1 _ _
  · exact Store.lookup_define_self _ hnew.outer_lt _ _
  · simp [install, Store.closure, Store.define, Store.modifyFrame, Store.newClosure]
  · exact hspells.extend (Store.extends_of_cells rfl)

section Runs

open State (Proceeds Finishes Settles Yields)

variable {setting : Setting} {m : Machine} {a' b' : Int64}

private theorem Turn.means (hx : x.Apart) (h : x.Turn outer e a b s)
    (hmeans : x.Means l (s.lookup outer)) :
    x.Means l (s.lookup e) :=
  hmeans.congr fun y hy => h.outside y (hx.same_eq_false.2.2 y hy).2

theorem Defined.decides (hx : x.Apart) (hd : x.Defined setting.library outer c expr m.store)
    (ht : x.Turn outer e a b m.store) (hallows : setting.Allows (m.depth + 1)) (ws : List Waiting) :
    ∃ m' branch, m.SameEffects m' ∧ m.SameStack m' ∧
      m.store.Spells branch (if a.toInt = 0 then .symbol x.acc else x.again) ∧
      Proceeds setting ws ⟨m, .eval expr e, ws⟩ ⟨m', .eval branch e, ws⟩ := by
  have hmeans := ht.means hx hd.means
  obtain ⟨cell, rfl, hhead, items, -, hspine, hitems⟩ := hd.spells.application
  simp only [List.forall₂_cons_right_iff, List.forall₂_nil_right_iff] at hitems
  obtain ⟨test, _, htest, ⟨consequent, _, hconsequent, ⟨alternative, _, halternative, rfl, rfl⟩,
    rfl⟩, rfl⟩ := hitems
  obtain ⟨f, hform, hrule⟩ := hmeans.conditional
  obtain ⟨op, hop, harity, hprocedure⟩ := hmeans.equals
  have hoperator : Settles setting m.store m.depth e (m.store.first cell) (.form f) :=
    State.settles_symbol hhead hform (hallows.mono (Nat.le_succ _))
  have hsettles : Settles setting m.store m.depth e test (.bool (decide (a.toInt = 0))) := by
    refine State.settles_binary htest hop harity ht.n ?_ hallows
    rw [hprocedure]
    exact Procedures.equals_ints a 0 m.store
  obtain ⟨m₁, heffects₁, hsame₁, hproceeds₁⟩ := State.proceeds_application ws hoperator rfl rfl
  obtain ⟨m₂, heffects₂, hsame₂, hproceeds₂⟩ :=
    State.proceeds_conditional (m := m₁.count Counters.countForm) ws
      (State.siteOf m.store cell e).held hspine hsettles heffects₁.store hsame₁.2
  have happly : State.applyHead setting m₁ ws (State.siteOf m.store cell e) (.form f) =
      ⟨m₁.count Counters.countForm, .native (Forms.conditional (m.store.rest cell) e)
        (State.siteOf m.store cell e).held, ws⟩ := by
    rw [← hrule]
    rfl
  rw [happly] at hproceeds₁
  refine ⟨m₂, _, heffects₁.trans ⟨heffects₂.store, heffects₂.symbols, heffects₂.output⟩,
    hsame₁.trans hsame₂, ?_, hproceeds₁.trans hproceeds₂⟩
  by_cases hzero : a.toInt = 0
  · simpa [hzero, Value.isTrue] using hconsequent
  · simpa [hzero, Value.isTrue] using halternative

theorem Defined.calls (hd : x.Defined setting.library outer c expr m.store) {v : Value}
    {d d' : Datum} (hspells : m.store.Spells v (list [.symbol x.countUp, d, d']))
    (hself : m.store.lookup e x.countUp = .ok (.closure c))
    (hfirst : ∀ w, m.store.Spells w d → Settles setting m.store m.depth e w (.int a))
    (hsecond : ∀ w, m.store.Spells w d' → Settles setting m.store m.depth e w (.int b))
    (hallows : setting.Allows m.depth) (ws : List Waiting) :
    ∃ m', m'.store = x.enter outer a b m.store ∧ m.SameStack m' ∧
      Proceeds setting ws ⟨m, .eval v e, ws⟩ ⟨m', .eval expr ⟨m.store.frames.size⟩, ws⟩ := by
  obtain ⟨cell, rfl, hhead, items, hlists, -, hitems⟩ := hspells.application
  simp only [List.forall₂_cons_right_iff, List.forall₂_nil_right_iff] at hitems
  obtain ⟨w, _, hw, ⟨w', _, hw', rfl, rfl⟩, rfl⟩ := hitems
  have hoperator : Settles setting m.store m.depth e (m.store.first cell) (.closure c) :=
    State.settles_symbol hhead hself hallows
  have hoperands : List.Forall₂ (Settles setting m.store m.depth e) [w, w'] [.int a, .int b] :=
    .cons (hfirst w hw) (.cons (hsecond w' hw') .nil)
  obtain ⟨m₁, heffects₁, hsame₁, hproceeds₁⟩ := State.proceeds_application ws hoperator rfl rfl
  obtain ⟨m₂, heffects₂, hsame₂, hproceeds₂⟩ :=
    State.proceeds_nextArgument ws c (State.siteOf m.store cell e) [] hoperands hlists
      heffects₁.store hsame₁.2
  have hstore : m₂.store = m.store := (heffects₁.trans heffects₂).store
  have hbind : m₂.store.bind (m₂.store.closure c) [.int a, .int b] =
      (.ok ⟨m.store.frames.size⟩, x.enter outer a b m.store) := by
    rw [hstore, hd.closure]
    rfl
  have hbody : State.applyClosure setting m₂ ws c [.int a, .int b]
      ((State.siteOf m.store cell e).held.append ⟨[.closure c], []⟩) true =
      ⟨{ m₂.count Counters.countProcedureCall with store := x.enter outer a b m.store },
        .eval expr ⟨m.store.frames.size⟩, ws⟩ := by
    simp only [State.applyClosure, Machine.bindArguments, Machine.count, hbind]
    rw [hstore, hd.closure]
    rfl
  rw [List.reverse_nil, List.nil_append, hbody] at hproceeds₂
  refine ⟨_, ?_, ?_, hproceeds₁.trans hproceeds₂⟩
  · rfl
  · exact hsame₁.trans hsame₂

/-- A turn before the last starts the next one in its place. -/
theorem Defined.iterate (hx : x.Apart) (hd : x.Defined setting.library outer c expr m.store)
    (ht : x.Turn outer e a b m.store) (hallows : setting.Allows (m.depth + 1)) (ha : a.toInt ≠ 0)
    (ha' : Word.sub? a 1 = some a') (hb' : Word.add? b 1 = some b') (ws : List Waiting) :
    ∃ m', m'.store = x.enter outer a' b' m.store ∧ m.SameStack m' ∧
      Proceeds setting ws ⟨m, .eval expr e, ws⟩ ⟨m', .eval expr ⟨m.store.frames.size⟩, ws⟩ := by
  obtain ⟨m₁, branch, heffects, hsame, hspells, hproceeds⟩ := hd.decides hx ht hallows ws
  rw [if_neg ha] at hspells
  rw [← heffects.store] at hd ht hspells
  rw [← hsame.2] at hallows
  have hmeans := ht.means hx hd.means
  obtain ⟨minus, hminus, harity, hsubtract⟩ := hmeans.minus
  obtain ⟨plus, hplus, harity', hadd⟩ := hmeans.plus
  have hself : m₁.store.lookup e x.countUp = .ok (.closure c) := by
    rw [ht.outside _ hx.same_eq_false.2.1, hd.self]
  obtain ⟨m₂, hstore, hsame', hproceeds'⟩ := hd.calls hspells hself
    (fun w hw => State.settles_binary hw hminus harity ht.n
      (by rw [hsubtract]; exact Procedures.subtract_ints ha' m₁.store) hallows)
    (fun w hw => State.settles_binary hw hplus harity' ht.acc
      (by rw [hadd]; exact Procedures.add_ints hb' m₁.store) hallows)
    (hallows.mono (Nat.le_succ _)) ws
  rw [heffects.store] at hstore hproceeds'
  exact ⟨m₂, hstore, hsame.trans hsame', hproceeds.trans hproceeds'⟩

theorem Defined.loop (hx : x.Apart) {k : Nat} {n : Int64}
    (hd : x.Defined setting.library outer c expr m.store) (ht : x.Turn outer e a b m.store)
    (hallows : setting.Allows (m.depth + 1)) (ha : a.toInt = k) (hn : a.toInt + b.toInt = n.toInt)
    (ws : List Waiting) :
    ∃ m', Finishes setting ws ⟨m, .eval expr e, ws⟩ (.ok (.int n)) m' := by
  induction k generalizing m e a b with
  | zero =>
    obtain ⟨m₁, branch, heffects, hsame, hspells, hproceeds⟩ := hd.decides hx ht hallows ws
    have hzero : a.toInt = 0 := ha
    obtain rfl : b = n := Int64.toInt_inj.mp (by omega)
    rw [if_pos hzero] at hspells
    have hacc : Yields setting m.store m₁.depth e (.symbol x.acc) (.int b) :=
      State.yields_symbol ht.acc
    obtain ⟨m₂, hfin, -⟩ := hacc m₁ ws heffects.store rfl
    rw [hspells.symbol] at hproceeds
    exact ⟨m₂, hproceeds.finishes hfin⟩
  | succ k ih =>
    have hlow := Int64.le_toInt b
    have hhigh := Int64.toInt_lt a
    have hhigh' := Int64.toInt_lt n
    obtain ⟨a', ha', heq⟩ := Word.exists_ofInt? (n := a.toInt - 1) ⟨by omega, by omega⟩
    obtain ⟨b', hb', heq'⟩ := Word.exists_ofInt? (n := b.toInt + 1) ⟨by omega, by omega⟩
    obtain ⟨m₁, hstore, hsame, hproceeds⟩ :=
      hd.iterate hx ht hallows (by omega) ha' hb' ws
    obtain ⟨hd', ht'⟩ := hd.enter hx a' b'
    rw [← hstore] at hd' ht'
    rw [← hsame.2] at hallows
    obtain ⟨m₂, hfin⟩ := ih hd' ht' hallows (by omega) (by omega)
    exact ⟨m₂, hproceeds.finishes hfin⟩

/-- `(count-up n 0)` comes to `n`. -/
theorem Defined.counts (hx : x.Apart) (hd : x.Defined setting.library outer c expr m.store)
    (hallows : setting.Allows (m.depth + 1)) {n : Int64} (hn : 0 ≤ n.toInt) {v : Value}
    (hspells : m.store.Spells v (x.call n)) (ws : List Waiting) :
    ∃ m', Finishes setting ws ⟨m, .eval v outer, ws⟩ (.ok (.int n)) m' := by
  have hlow : setting.Allows m.depth := hallows.mono (Nat.le_succ _)
  obtain ⟨m₁, hstore, hsame, hproceeds⟩ := hd.calls hspells hd.self
    (fun w hw => State.settles_int hw hlow) (fun w hw => State.settles_int hw hlow) hlow ws
  obtain ⟨hd', ht'⟩ := hd.enter hx n 0
  rw [← hstore] at hd' ht'
  rw [← hsame.2] at hallows
  obtain ⟨m₂, hfin⟩ := hd'.loop hx ht' hallows (k := n.toInt.toNat) (n := n) (by omega) (by simp) ws
  exact ⟨m₂, hproceeds.finishes hfin⟩

private theorem define_of_spells (hx : x.Apart) {operands signature : Value}
    (hspine : s.spine operands = .proper [signature, expr])
    (hsignature : s.Spells signature (list [.symbol x.countUp, .symbol x.n, .symbol x.acc]))
    (env : FrameId) :
    Forms.define operands env s = .done (.value (.symbol x.countUp)) (x.install env expr s) := by
  obtain ⟨cell, rfl, hname, hformals⟩ := hsignature.pair
  have hdistinct : Symbol.Distinct [x.n, x.acc] :=
    List.Nodup.sublist ((List.drop_sublist 6 x.symbols).map Symbol.id) hx
  have hparsed : Forms.parseFormals s "define" (s.rest cell) = .ok (.fixed [x.n, x.acc]) :=
    Forms.parseFormals_of_spells "define" hformals hdistinct
  simp only [Forms.define, Forms.operandList, Native.elements, Native.read, bind, hspine,
    Interaction.bind, pure, hname.symbol, Forms.makeClosure_cons, hparsed, Interaction.ofExcept,
    Native.change]
  rfl

theorem Provided.defines (h : x.Provided setting.library outer m.store)
    (hallows : setting.Allows m.depth) {v : Value} (hspells : m.store.Spells v x.definition)
    (ws : List Waiting) :
    ∃ m' c expr, Finishes setting ws ⟨m, .eval v outer, ws⟩ (.ok (.symbol x.countUp)) m' ∧
      x.Defined setting.library outer c expr m'.store := by
  obtain ⟨cell, rfl, hhead, items, -, hspine, hitems⟩ := hspells.application
  simp only [List.forall₂_cons_right_iff, List.forall₂_nil_right_iff] at hitems
  obtain ⟨signature, _, hsignature, ⟨expr, _, hbody, rfl, rfl⟩, rfl⟩ := hitems
  obtain ⟨f, hform, hrule⟩ := h.define
  have hoperator : Settles setting m.store m.depth outer (m.store.first cell) (.form f) :=
    State.settles_symbol hhead hform hallows
  obtain ⟨m₁, heffects, -, hproceeds⟩ := State.proceeds_application ws hoperator rfl rfl
  have hprogram : setting.library.form f (m.store.rest cell) outer m₁.store =
      .done (.value (.symbol x.countUp)) (x.install outer expr m.store) := by
    rw [hrule, heffects.store]
    exact define_of_spells h.apart hspine hsignature outer
  exact ⟨_, _, expr, hproceeds.finishes (State.finishes_native_value hprogram), h.defined hbody⟩

end Runs

def names : List String := ["define", "if", "=", "-", "+", "count-up", "n", "acc"]

/-- The symbols are those of the names in the table. -/
def Named (x : CountUp) (t : SymbolTable) : Prop := names.map t.lookup = x.symbols.map some

/-- An interpreter that was built with the standard library provides what the loop needs. -/
theorem provided_build {config : Config} {t t' : SymbolTable} {i : Interpreter}
    (hstandard : config.standard = true) (ht : t.InOrder) (hi : Interpreter.build config t = .ok i)
    (hgrows : i.symbols.Grows t') (hx : x.Named t') :
    x.Provided i.library i.global i.machine.store := by
  obtain ⟨hgrounded, hforms, hprocedures⟩ := Interpreter.defines_build hstandard ht hi
  have hnamed := hx
  simp only [Named, names, symbols, List.map_cons, List.map_nil, List.cons.injEq] at hnamed
  obtain ⟨hdefine, hconditional, hequals, hminus, hplus, -⟩ := hnamed
  obtain ⟨define, hdefine', hrule⟩ := hforms ("define", Forms.define) (by simp [Standard.forms])
  obtain ⟨conditional, hconditional', hrule'⟩ :=
    hforms ("if", Forms.conditional) (by simp [Standard.forms])
  have hprocedure {name : String} {arity : Arity} {body : NativeProcedure} {y : Symbol}
      (hmem : (name, arity, body) ∈ Standard.procedures) (harity : arity.accepts 2 = true)
      (hy : t'.lookup name = some y) :
      ∃ b, i.machine.store.lookup i.global y = .ok (.builtin b) ∧ b.arity.accepts 2 = true ∧
        i.library.procedure b = body := by
    obtain ⟨b, hdefines, heq, hbody⟩ := hprocedures _ hmem
    exact ⟨b, hdefines.lookup hgrows hy, by rw [heq]; exact harity, hbody⟩
  exact {
    apart := hgrows.inOrder.distinct (by decide) hx
    rooted := hgrounded.rooted
    outer_lt := hgrounded.global
    define := ⟨define, hdefine'.lookup hgrows hdefine, hrule⟩
    means := {
      conditional := ⟨conditional, hconditional'.lookup hgrows hconditional, hrule'⟩
      equals := hprocedure (List.mem_of_getElem? (i := 10) rfl) rfl hequals
      minus := hprocedure (List.mem_of_getElem? (i := 1) rfl) rfl hminus
      plus := hprocedure (List.mem_of_getElem? (i := 0) rfl) rfl hplus } }

/-- Under a limit that allows three levels more, the loop can be defined in any interpreter that
provides what it needs, and then counts up to any integer that is not negative. -/
theorem Provided.counts {i : Interpreter} (h : x.Provided i.library i.global i.machine.store)
    (hlimit : ∀ limit, i.maxDepth = some limit → i.machine.depth + 3 ≤ limit) {source : String}
    {t : SymbolTable} (hsource : i.Reads source x.definition t) :
    ∃ fuel j, i.evalSource fuel source = some (.ok (.symbol x.countUp), j) ∧
      ∀ n : Int64, 0 ≤ n.toInt → ∀ source' t', j.Reads source' (x.call n) t' →
        ∃ fuel j', j.evalSource fuel source' = some (.ok (.int n), j') := by
  have hallows : (i.setting ⟨[.unspecified], []⟩).Allows (i.machine.depth + 2) := hlimit
  have hprovided : x.Provided (i.setting ⟨[.unspecified], []⟩).library i.global
      (i.loading x.definition t).deeper.store :=
    h.of_frames (Store.elsewhere_load _ _).1
  obtain ⟨m, c, expr, hfin, hdefined⟩ := hprovided.defines (hallows.mono (Nat.le_succ _))
    (Store.spells_load i.machine.store x.definition) _
  obtain ⟨fuel, heval⟩ := Interpreter.evalSource_of_reads hsource (hallows.mono (by omega)) hfin
  refine ⟨fuel, _, heval, ?_⟩
  generalize hj : ({ i with machine := { m with depth := i.machine.depth } } : Interpreter) = j
  have hdefined : x.Defined j.library j.global c expr j.machine.store := by
    rw [← hj]
    exact hdefined
  have hallows : (j.setting ⟨[.unspecified], []⟩).Allows (j.machine.depth + 2) := by
    rw [← hj]
    exact hallows
  intro n hn source' t' hsource'
  have hloaded : x.Defined (j.setting ⟨[.unspecified], []⟩).library j.global c expr
      (j.loading (x.call n) t').deeper.store :=
    hdefined.load _
  obtain ⟨m', hfin'⟩ := hloaded.counts h.apart hallows hn
    (Store.spells_load j.machine.store (x.call n)) _
  obtain ⟨fuel', heval'⟩ := Interpreter.evalSource_of_reads hsource' (hallows.mono (by omega)) hfin'
  exact ⟨fuel', _, heval'⟩

end CountUp

end MiniScheme
