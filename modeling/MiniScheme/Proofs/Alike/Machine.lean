import MiniScheme.Proofs.Alike.Native
import MiniScheme.Proofs.Alike.References
import MiniScheme.Proofs.Alike.Tables
import MiniScheme.Proofs.Machine.Alongside
import MiniScheme.Proofs.Machine.DepthLimit
/-! # Alike states

Two states of the machine are alike if they differ in symbols only. A step takes alike states to alike
states: the links of their tables and closures grow by what native code interns and makes, and nothing
else looks at the identity of a symbol. The values that a native procedure takes off the call stack
have to be there. What the callers hold on to matters only where native code asks who holds a closure:
there both have to get the same answer.
-/
namespace MiniScheme

variable {K : Terms} {L L' : Link K}

structure Machine.Alike (L : Link K) (m m' : Machine) : Prop where
  store : m.store.Alike L m'.store
  symbols : L.Reads m.symbols m'.symbols
  calls : Pointwise (Value.Alike L) m.calls.values m'.calls.values
  peak : K.counted → m'.calls.peak = m.calls.peak
  depth : m'.depth = m.depth
  counters : K.counted → m'.counters = m.counters
  output : m'.output = m.output

/-- The same limit, and code that treats alike values alike. -/
structure Setting.Akin (K : Terms) (g g' : Setting) : Prop where
  library : g.library.Alike K g'.library
  maxDepth : g'.maxDepth = g.maxDepth

structure Setting.Alike (L : Link K) (g g' : Setting) : Prop extends g.Akin K g' where
  caller : g.caller.Alike L g'.caller

structure CallSite.Alike (L : Link K) (c c' : CallSite) : Prop where
  cell : c'.cell = c.cell
  head : c.head.Alike L c'.head
  operands : c.operands.Alike L c'.operands
  env : c'.env = c.env

inductive Waiting.Alike (L : Link K) : Waiting → Waiting → Prop
  | nested {v v' : Value} (expr : v.Alike L v') (env : FrameId) :
    Alike L (.nested v env) (.nested v' env)
  | operator {c c' : CallSite} (site : c.Alike L c') : Alike L (.operator c) (.operator c')
  | operand {b : Builtin} {c c' : CallSite} (procedure : K.builtin b) (site : c.Alike L c')
    (base count : Nat) (current : CellId) :
    Alike L (.operand b c base count current) (.operand b c' base count current)
  | argument {f : ClosureId} {c c' : CallSite} {v v' : Value} {vs vs' : List Value}
    (closure : f.index < L.closures) (site : c.Alike L c') (rest : v.Alike L v')
    (reversed : Values L vs vs') :
    Alike L (.argument f c v vs) (.argument (K.closure f) c' v' vs')
  | body {vs vs' : List Value} {h h' : Held} (rest : Values L vs vs') (frame : FrameId)
    (context : h.Alike L h') (inPlace : Bool) :
    Alike L (.body vs frame h inPlace) (.body vs' frame h' inPlace)
  | native {k k' : Except EvalError Value → Native Outcome} {c c' h h' : Held}
    (resume : ∀ L', L ≤ L' → ∀ a b, Answer K.error (Value.Alike L') a b →
      (k a).Alike L' Outcome.Alike (k' b))
    (context : c.Alike L c') (held : h.Alike L h') : Alike L (.native k c h) (.native k' c' h')

inductive Control.Alike (L : Link K) : Control → Control → Prop
  | eval {v v' : Value} (expr : v.Alike L v') (env : FrameId) : Alike L (.eval v env) (.eval v' env)
  | native {x x' : Native Outcome} {h h' : Held} (program : x.Alike L Outcome.Alike x')
    (context : h.Alike L h') : Alike L (.native x h) (.native x' h')
  | answer {a b : Except EvalError Value} (result : Answer K.error (Value.Alike L) a b) :
    Alike L (.answer a) (.answer b)

abbrev Waits (L : Link K) : List Waiting → List Waiting → Prop := List.Forall₂ (Waiting.Alike L)

structure State.Alike (L : Link K) (s s' : State) : Prop where
  machine : s.machine.Alike L s'.machine
  control : s.control.Alike L s'.control
  waiting : Waits L s.waiting s'.waiting

theorem Setting.Alike.mono (hle : L ≤ L') {g g' : Setting} (h : g.Alike L g') : g.Alike L' g' :=
  ⟨h.toAkin, h.caller.mono hle⟩

theorem CallSite.Alike.mono (hle : L ≤ L') {c c' : CallSite} (h : c.Alike L c') : c.Alike L' c' :=
  ⟨h.cell, h.head.mono hle, h.operands.mono hle, h.env⟩

theorem Waiting.Alike.mono (hle : L ≤ L') {w w' : Waiting} (h : w.Alike L w') : w.Alike L' w' := by
  cases h with
  | nested expr env => exact .nested (expr.mono hle) env
  | operator site => exact .operator (site.mono hle)
  | operand procedure site base count current =>
    exact .operand procedure (site.mono hle) base count current
  | argument closure site rest reversed =>
    exact .argument (Nat.lt_of_lt_of_le closure hle.2) (site.mono hle) (rest.mono hle)
      (reversed.mono hle)
  | body rest frame context inPlace =>
    exact .body (Values.mono hle rest) frame (context.mono hle) inPlace
  | native resume context held =>
    exact .native (fun L'' hle' => resume L'' (hle.trans hle')) (context.mono hle) (held.mono hle)

theorem Waits.mono (hle : L ≤ L') {ws ws' : List Waiting} (h : Waits L ws ws') : Waits L' ws ws' :=
  h.imp fun _ _ => .mono hle

namespace Held

variable {h h' k k' : Held}

private theorem Alike.append (hh : h.Alike L h') (hk : k.Alike L k') :
    (h.append k).Alike L (h'.append k') :=
  ⟨List.rel_append hh.values hk.values, by simp only [Held.append, hh.frames, hk.frames]⟩

theorem Alike.refs_eq (hh : h.Alike L h') : h'.refs = h.refs.map (Ref.rename K.closure) := by
  rw [Held.refs, Held.refs, Values.filterMap_ref?_eq hh.values, hh.frames, List.map_append,
    List.map_map]
  rfl

end Held

private theorem CallSite.Alike.held {c c' : CallSite} (h : c.Alike L c') :
    c.held.Alike L c'.held := by
  refine ⟨.cons ?_ (.cons h.head (.cons h.operands .nil)), ?_⟩
  · rw [h.cell]
    exact .same trivial
  · simp only [CallSite.held, h.env]

theorem Waiting.Alike.held {w w' : Waiting} (h : w.Alike L w') : w.held.Alike L w'.held := by
  cases h with
  | nested expr env => exact Held.alike_mk (.cons expr .nil) _
  | operator site => exact site.held
  | operand procedure site base count current =>
    have hcurrent : (Value.pair current).Alike L (.pair current) := .same trivial
    exact site.held.append (Held.alike_mk (.cons hcurrent .nil) _)
  | @argument f _ _ _ _ _ _ closure site rest reversed =>
    have hclosure : (Value.closure f).Alike L (.closure (K.closure f)) := .same closure
    exact site.held.append (Held.alike_mk (.cons hclosure (.cons rest reversed)) _)
  | body rest frame context inPlace => exact context.append (Held.alike_mk rest _)
  | native resume context held => exact context.append held

namespace Machine

variable {m m' : Machine} (h : m.Alike L m')

include h

theorem Alike.eq_of_exact (hK : K.Exact) : m' = m := by
  obtain ⟨store, symbols, ⟨values, peak⟩, depth, counters, output⟩ := m
  obtain ⟨store', symbols', ⟨values', peak'⟩, depth', counters', output'⟩ := m'
  have hvalues : values' = values := by
    rw [← Array.toList_inj]
    exact Values.eq_of_exact hK h.calls
  rw [show store' = store from h.store.eq_of_exact hK,
    show symbols' = symbols from h.symbols.strict hK.strict, hvalues,
    show peak' = peak from h.peak hK.counted, show depth' = depth from h.depth,
    show counters' = counters from h.counters hK.counted, show output' = output from h.output]

private theorem Alike.count (event : Counters → Counters) :
    (m.count event).Alike L (m'.count event) :=
  ⟨h.store, h.symbols, h.calls, h.peak, h.depth,
    fun hK => by simp only [Machine.count, h.counters hK], h.output⟩

private theorem Alike.pushCall {v v' : Value} (hv : v.Alike L v') :
    (m.pushCall v).Alike L (m'.pushCall v') := by
  have hcalls : Pointwise (Value.Alike L) (m.calls.push v).values (m'.calls.push v').values :=
    h.calls.push hv
  have hsize : (m'.calls.push v').values.size = (m.calls.push v).values.size := hcalls.size_eq
  refine ⟨h.store, h.symbols, hcalls, fun hK => ?_, h.depth, fun hK => ?_, h.output⟩
  · change max m'.calls.peak (m'.calls.push v').values.size =
      max m.calls.peak (m.calls.push v).values.size
    rw [h.peak hK, hsize]
  · change m'.counters.map (·.recordStack (m'.calls.push v').values.size) =
      m.counters.map (·.recordStack (m.calls.push v).values.size)
    rw [h.counters hK, hsize]

private theorem Alike.truncateCalls (n : Nat) :
    (m.truncateCalls n).Alike L (m'.truncateCalls n) := by
  refine ⟨h.store, h.symbols, ?_, h.peak, h.depth, h.counters, h.output⟩
  change List.Forall₂ _ (m.calls.truncate n).values.toList (m'.calls.truncate n).values.toList
  rw [CallStack.toList_truncate, CallStack.toList_truncate]
  exact List.forall₂_take n h.calls

theorem Alike.popCalls {n : Nat} (hn : n ≤ m.calls.values.size) :
    ∃ args args', m.popCalls n = (.ok args, m.truncateCalls (m.calls.values.size - n)) ∧
      m'.popCalls n = (.ok args', m'.truncateCalls (m.calls.values.size - n)) ∧
      Values L args args' := by
  have hn' : n ≤ m'.calls.values.size := by rw [h.calls.size_eq]; exact hn
  refine ⟨(m.calls.values.extract (m.calls.values.size - n)).toList,
    (m'.calls.values.extract (m.calls.values.size - n)).toList, ?_, ?_, ?_⟩
  · simp only [Machine.popCalls, CallStack.popFrame, if_pos hn]
    rfl
  · simp only [Machine.popCalls, CallStack.popFrame, if_pos hn']
    rw [h.calls.size_eq]
    rfl
  · rw [Array.toList_extract, Array.toList_extract, List.extract_eq_take_drop,
      List.extract_eq_take_drop, h.calls.size_eq]
    exact List.forall₂_take _ (List.forall₂_drop _ h.calls)

private theorem Alike.bindArguments {c c' : Closure} (hc : c.Alike L c') {args args' : List Value}
    (hargs : Values L args args') :
    Answer K.error Eq (m.bindArguments c args).1 (m'.bindArguments c' args').1 ∧
      (m.bindArguments c args).2.Alike L (m'.bindArguments c' args').2 := by
  obtain ⟨hframe, hstore⟩ := h.store.bind hc hargs
  exact ⟨hframe, hstore, h.symbols, h.calls, h.peak, h.depth, h.counters, h.output⟩

theorem Alike.withStore (hadds : L.Adds L') {s s' : Store} (hs : s.Alike L' s') :
    Machine.Alike L' { m with store := s } { m' with store := s' } :=
  ⟨hs, h.symbols.adds hadds, h.calls.mono fun _ _ => .mono hadds.le, h.peak, h.depth, h.counters,
    h.output⟩

theorem Alike.withSymbols (hinterns : L.Interns L') {t t' : SymbolTable} (ht : L'.Reads t t') :
    Machine.Alike L' { m with symbols := t } { m' with symbols := t' } :=
  ⟨h.store.interns hinterns, ht, h.calls.mono fun _ _ => .mono hinterns.le, h.peak, h.depth,
    h.counters, h.output⟩

theorem Alike.intern {name : String} (hagree : Link.Agree K m.symbols m'.symbols name) :
    ∃ L', L.Interns L' ∧ Answer K.error L'.symbol (m.intern name).1 (m'.intern name).1 ∧
      (m.intern name).2.Alike L' (m'.intern name).2 := by
  obtain ⟨L', hinterns, hreads, hanswer⟩ := h.symbols.intern hagree
  have hmachine := h.withSymbols hinterns hreads
  refine ⟨L', hinterns, ?_⟩
  clear hreads hagree h
  obtain ⟨store, symbols, calls, depth, counters, output⟩ := m
  obtain ⟨store', symbols', calls', depth', counters', output'⟩ := m'
  unfold Machine.intern
  dsimp only at hanswer hmachine ⊢
  generalize symbols.intern name = interned at hanswer hmachine ⊢
  generalize symbols'.intern name = interned' at hanswer hmachine ⊢
  obtain ⟨answer, t⟩ := interned
  obtain ⟨answer', t'⟩ := interned'
  cases hanswer with
  | ok hx => exact ⟨.ok hx, hmachine⟩
  | error _ => exact ⟨.error (K.error_of_not_internal rfl), hmachine⟩

private theorem Alike.print (text : String) : (m.print text).Alike L (m'.print text) := by
  refine ⟨h.store, h.symbols, h.calls, h.peak, h.depth, h.counters, ?_⟩
  change m'.output.print text = m.output.print text
  rw [h.output]

omit h in
private theorem roots_eq_append (caller context : Held) (ws : List Waiting) :
    m.roots caller context ws = caller.refs ++ m.roots {} context ws := by
  simp only [Machine.roots, List.append_assoc]
  rfl

omit h in
theorem roots_eq (hcalls : Pointwise (Value.Alike L) m.calls.values m'.calls.values)
    {context context' : Held} (hcontext : context.Alike L context') {ws ws' : List Waiting}
    (hws : Waits L ws ws') :
    m'.roots {} context' ws' = (m.roots {} context ws).map (Ref.rename K.closure) := by
  have hwaiting : ws'.flatMap (fun w => w.held.refs) =
      (ws.flatMap fun w => w.held.refs).map (Ref.rename K.closure) := by
    induction hws with
    | nil => rfl
    | cons hw _ ih =>
      rw [List.flatMap_cons, List.flatMap_cons, hw.held.refs_eq, ih, List.map_append]
  have hcaller : ({} : Held).refs.map (Ref.rename K.closure) = ({} : Held).refs := rfl
  simp only [Machine.roots, hcontext.refs_eq, Values.filterMap_ref?_eq hcalls, hwaiting,
    List.map_append, hcaller]

end Machine

namespace State

variable {g g' : Setting} (hg : g.Akin K g') {m m' : Machine} (hm : m.Alike L m')
  {ws ws' : List Waiting} (hws : Waits L ws ws')

include hm hws

theorem alike_answer {v v' : Value} (hv : v.Alike L v') :
    (answer m ws v).Alike L (answer m' ws' v') :=
  ⟨hm, .answer (.ok hv), hws⟩

private theorem alike_fail {e : EvalError} (he : K.error e) :
    (fail m ws e).Alike L (fail m' ws' e) :=
  ⟨hm, .answer (.error he), hws⟩

include hg

theorem alike_nest {v v' : Value} (hv : v.Alike L v') (env : FrameId) :
    (nest g m ws v env).Alike L (nest g' m' ws' v' env) := by
  have henter : (nest.enterNested ws v env m).Alike L (nest.enterNested ws' v' env m') := by
    refine ⟨⟨hm.store, hm.symbols, hm.calls, hm.peak, ?_, fun hK => ?_, hm.output⟩, .eval hv env,
      .cons (.nested hv env) hws⟩
    · exact congrArg (· + 1) hm.depth
    · simp only [nest.enterNested, hm.counters hK, hm.depth]
  unfold nest
  rw [hg.maxDepth, hm.depth]
  split
  · split
    · exact alike_fail hm hws (K.error_of_not_internal rfl)
    · exact henter
  · exact henter

private theorem alike_applyBuiltin {b : Builtin} (hb : K.builtin b) {args args' : List Value}
    (hargs : Values L args args') {context context' : Held} (hcontext : context.Alike L context') :
    (applyBuiltin g m ws b args context).Alike L (applyBuiltin g' m' ws' b args' context') := by
  unfold applyBuiltin
  rw [← hargs.length_eq, Arity.check]
  split_ifs with haccepts
  · refine ⟨hm.count _, .native ?_ (hcontext.append (Held.alike_mk hargs _)), hws⟩
    refine Native.alike_bind (hg.library.procedure hb hargs haccepts) ?_
    exact fun _ _ _ _ hv => Native.alike_pure (.value hv)
  · exact alike_fail hm hws (K.error_of_not_internal rfl)

omit hg hws in
private theorem improperOperands_eq {v v' : Value} (hv : v.Alike L v') :
    improperOperands m'.store v' = improperOperands m.store v := by
  rw [improperOperands, improperOperands, hm.store.text_eq hv]

private theorem alike_nextOperand {b : Builtin} (hb : K.builtin b) {site site' : CallSite}
    (hsite : site.Alike L site') (base : Nat) {count : Nat}
    (hcount : count ≤ m.calls.values.size) {rest rest' : Value} (hrest : rest.Alike L rest') :
    (nextOperand g m ws b site base count rest).Alike L
      (nextOperand g' m' ws' b site' base count rest') := by
  have himproper : (fail (m.truncateCalls base) ws (improperOperands m.store site.operands)).Alike L
      (fail (m'.truncateCalls base) ws' (improperOperands m'.store site'.operands)) := by
    rw [improperOperands_eq hm hsite.operands]
    exact alike_fail (hm.truncateCalls base) hws (K.error_of_not_internal rfl)
  cases hrest with
  | symbol hx => exact himproper
  | @same rest hfits =>
    cases rest with
    | nil =>
      obtain ⟨args, args', hpop, hpop', hargs⟩ := hm.popCalls hcount
      simp only [nextOperand, hpop, hpop']
      exact alike_applyBuiltin hg (hm.truncateCalls _) hws hb hargs hsite.held
    | pair c =>
      simp only [nextOperand, hsite.env]
      exact alike_nest hg hm (.cons (.operand hb hsite base count c) hws) (hm.store.first c) _
    | _ => exact himproper

private theorem alike_nextBody (frame : FrameId) {context context' : Held}
    (hcontext : context.Alike L context') (inPlace : Bool) {body body' : List Value}
    (hbody : Values L body body') :
    (nextBody g m ws frame context inPlace body).Alike L
      (nextBody g' m' ws' frame context' inPlace body') := by
  cases hbody with
  | nil => exact alike_answer hm hws (.same trivial)
  | cons hexpr hrest =>
    cases hrest with
    | nil =>
      unfold nextBody
      dsimp only
      split
      · exact ⟨hm, .eval hexpr frame, hws⟩
      · exact alike_nest hg hm hws hexpr frame
    | cons hnext hrest =>
      exact alike_nest hg hm (.cons (.body (.cons hnext hrest) frame hcontext inPlace) hws) hexpr frame

private theorem alike_applyClosure {c : ClosureId} (hc : c.index < L.closures)
    {args args' : List Value}
    (hargs : Values L args args') {context context' : Held} (hcontext : context.Alike L context')
    (inPlace : Bool) :
    (applyClosure g m ws c args context inPlace).Alike L
      (applyClosure g' m' ws' (K.closure c) args' context' inPlace) := by
  have hclosure := hm.store.closure hc
  obtain ⟨hframe, hmachine⟩ := (hm.count Counters.countProcedureCall).bindArguments hclosure hargs
  have hbody : (m.store.closure c).body.isEmpty = false := by simpa using hclosure.nonempty
  simp only [applyClosure, hclosure.body.isEmpty_eq, hbody]
  generalize Machine.bindArguments _ _ _ = bound at hframe hmachine
  generalize Machine.bindArguments _ _ _ = bound' at hframe hmachine
  obtain ⟨frame, m₁⟩ := bound
  obtain ⟨frame', m₁'⟩ := bound'
  cases hframe with
  | error he => exact alike_fail hmachine hws he
  | ok h =>
    obtain rfl := h
    exact alike_nextBody hg hmachine hws _ hcontext inPlace hclosure.body

private theorem alike_nextArgument {c : ClosureId} (hc : c.index < L.closures)
    {site site' : CallSite} (hsite : site.Alike L site') {reversed reversed' : List Value}
    (hreversed : Values L reversed reversed') {rest rest' : Value} (hrest : rest.Alike L rest') :
    (nextArgument g m ws c site reversed rest).Alike L
      (nextArgument g' m' ws' (K.closure c) site' reversed' rest') := by
  have himproper : (fail m ws (improperOperands m.store site.operands)).Alike L
      (fail m' ws' (improperOperands m'.store site'.operands)) := by
    rw [improperOperands_eq hm hsite.operands]
    exact alike_fail hm hws (K.error_of_not_internal rfl)
  cases hrest with
  | symbol hx => exact himproper
  | @same rest hfits =>
    cases rest with
    | nil =>
      have hclosure : (Value.closure c).Alike L (.closure (K.closure c)) := .same hc
      exact alike_applyClosure hg hm hws hc (List.rel_reverse hreversed)
        (hsite.held.append (Held.alike_mk (.cons hclosure .nil) _)) true
    | pair p =>
      simp only [nextArgument, hsite.env]
      exact alike_nest hg hm (.cons (.argument hc hsite (hm.store.rest p) hreversed) hws)
        (hm.store.first p) _
    | _ => exact himproper

private theorem alike_call {procedure procedure' : Value}
    (hprocedure : procedure.Alike L procedure')
    {args args' : List Value} (hargs : Values L args args') :
    (call g m ws procedure args).Alike L (call g' m' ws' procedure' args') := by
  have hnot : (fail m ws (m.store.notAProcedure procedure)).Alike L
      (fail m' ws' (m'.store.notAProcedure procedure')) := by
    rw [hm.store.notAProcedure_eq hprocedure]
    exact alike_fail hm hws (K.error_of_not_internal rfl)
  cases hprocedure with
  | symbol hx => exact hnot
  | @same procedure hfits =>
    cases procedure with
    | builtin b => exact alike_applyBuiltin hg hm hws hfits hargs (Held.alike_mk .nil _)
    | closure c => exact alike_applyClosure hg hm hws hfits hargs (Held.alike_mk .nil _) false
    | _ => exact hnot

private theorem alike_evalExpr {expr expr' : Value} (hexpr : expr.Alike L expr') (env : FrameId) :
    (evalExpr g m ws expr env).Alike L (evalExpr g' m' ws' expr' env) := by
  cases hexpr with
  | symbol hx => exact ⟨hm, .answer (hm.store.lookup env hx), hws⟩
  | @same expr hfits =>
    cases expr with
    | symbol x => exact hfits.elim
    | pair c =>
      have hsite : CallSite.Alike L ⟨c, m.store.first c, m.store.rest c, env⟩
          ⟨c, m'.store.first c, m'.store.rest c, env⟩ :=
        ⟨rfl, hm.store.first c, hm.store.rest c, rfl⟩
      exact alike_nest hg hm (.cons (.operator hsite) hws) (hm.store.first c) env
    | _ => exact alike_answer hm hws (.same hfits)

private theorem alike_applyHead {site site' : CallSite} (hsite : site.Alike L site')
    {head head' : Value} (hhead : head.Alike L head') :
    (applyHead g m ws site head).Alike L (applyHead g' m' ws' site' head') := by
  have hnot : (fail m ws (m.store.notAProcedure site.head)).Alike L
      (fail m' ws' (m'.store.notAProcedure site'.head)) := by
    rw [hm.store.notAProcedure_eq hsite.head]
    exact alike_fail hm hws (K.error_of_not_internal rfl)
  cases hhead with
  | symbol hx => exact hnot
  | @same head hfits =>
    cases head with
    | builtin b =>
      have hsize : m'.calls.size = m.calls.size := hm.calls.size_eq
      simp only [applyHead, hsize]
      exact alike_nextOperand hg hm hws hfits hsite _ (Nat.zero_le _) hsite.operands
    | form f =>
      simp only [applyHead, hsite.env]
      exact ⟨hm.count _, .native (hg.library.form hfits hsite.operands _) hsite.held, hws⟩
    | closure c => exact alike_nextArgument hg hm hws hfits hsite .nil hsite.operands
    | _ => exact hnot

omit hg hws in
private theorem headError_eq {site site' : CallSite} (hsite : site.Alike L site') {e : EvalError}
    (he : K.error e) :
    headError m'.store site' e = headError m.store site e ∧ K.error (headError m.store site e) := by
  have hnot := hm.store.notAProcedure_eq hsite.head
  obtain ⟨cell, head, operands, env⟩ := site
  obtain ⟨cell', head', operands', env'⟩ := site'
  have hhead : head.Alike L head' := hsite.head
  clear hsite
  cases hhead with
  | symbol hx =>
    unfold headError
    dsimp only at hnot ⊢
    cases hcause : e.cause with
    | unboundVariable name =>
      rw [hnot]
      exact ⟨rfl, K.error_of_not_internal rfl⟩
    | _ => exact ⟨rfl, he⟩
  | same hfits =>
    cases head with
    | symbol x => exact hfits.elim
    | _ => exact ⟨rfl, he⟩

private theorem alike_deliver {w w' : Waiting} (hw : w.Alike L w')
    (hpushed : ∀ b site base count current, w = .operand b site base count current →
      count ≤ m.calls.values.size)
    {result result' : Except EvalError Value} (hresult : Answer K.error (Value.Alike L) result result') :
    (deliver g m ws w result).Alike L (deliver g' m' ws' w' result') := by
  cases hw with
  | nested expr env =>
    refine ⟨⟨hm.store, hm.symbols, hm.calls, hm.peak, ?_, hm.counters, hm.output⟩,
      .answer hresult, hws⟩
    exact congrArg (· - 1) hm.depth
  | native resume context held =>
    exact ⟨hm, .native (resume L (le_refl L) _ _ hresult) context, hws⟩
  | operator site =>
    cases hresult with
    | ok hv => exact alike_applyHead hg hm hws site hv
    | error he =>
      obtain ⟨heq, herror⟩ := headError_eq hm site he
      simp only [deliver, heq]
      exact alike_fail hm hws herror
  | operand procedure site base count current =>
    cases hresult with
    | ok hv =>
      refine alike_nextOperand hg (hm.pushCall hv) hws procedure site base ?_ (hm.store.rest current)
      have hcount := hpushed _ _ _ _ _ rfl
      rw [← Array.length_toList, Machine.toList_pushCall, List.length_append, Array.length_toList]
      exact Nat.succ_le_succ hcount
    | error he => exact alike_fail (hm.truncateCalls base) hws he
  | argument closure site rest reversed =>
    cases hresult with
    | ok hv => exact alike_nextArgument hg hm hws closure site (.cons hv reversed) rest
    | error he => exact alike_fail hm hws he
  | body rest frame context inPlace =>
    cases hresult with
    | ok hv => exact alike_nextBody hg hm hws frame context inPlace rest
    | error he => exact alike_fail hm hws he

/-- If both states are to say whether somebody else holds a closure, they say the same. -/
def SoleAlike (K : Terms) (g g' : Setting) (s s' : State) : Prop :=
  ∀ {c : ClosureId} {sole sole' : Bool}, s.Asks g c sole → s'.Asks g' (K.closure c) sole' →
    sole' = sole

private theorem alike_runNative
    (hgrow : K.strict ∨ (m.symbols.CanGrow ∧ m'.symbols.CanGrow)) {x x' : Native Outcome}
    (hx : x.Alike L Outcome.Alike x') {context context' : Held} (hcontext : context.Alike L context')
    (hsole : SoleAlike K g g' ⟨m, .native x context, ws⟩ ⟨m', .native x' context', ws'⟩) :
    ∃ L', L ≤ L' ∧ (runNative g m ws x context).Alike L' (runNative g' m' ws' x' context') := by
  have hrun := hx m.store m'.store hm.store
  obtain ⟨store, symbols, calls, depth, counters, output⟩ := m
  obtain ⟨store', symbols', calls', depth', counters', output'⟩ := m'
  unfold runNative
  dsimp only at hrun hgrow ⊢
  generalize hprogram : x store = program at hrun ⊢
  generalize hprogram' : x' store' = program' at hrun ⊢
  cases hrun with
  | done adds store result =>
    refine ⟨_, adds.le, ?_⟩
    have hmachine := hm.withStore adds store
    cases result with
    | value hv => exact alike_answer hmachine (hws.mono adds.le) hv
    | tail hexpr env => exact ⟨hmachine, .eval hexpr env, hws.mono adds.le⟩
  | fail adds store error =>
    exact ⟨_, adds.le, alike_fail (hm.withStore adds store) (hws.mono adds.le) error⟩
  | endless adds store =>
    exact ⟨_, adds.le, hm.withStore adds store, .native Native.alike_endless (hcontext.mono adds.le),
      hws.mono adds.le⟩
  | eval adds store expr held resume =>
    refine ⟨_, adds.le, alike_nest hg (hm.withStore adds store)
      (.cons (.native ?_ (hcontext.mono adds.le) held) (hws.mono adds.le)) expr _⟩
    exact fun L'' hle a b hab s s' hs => resume L'' hle a b hab s s' hs
  | call adds store procedure args held resume =>
    refine ⟨_, adds.le, alike_call hg (hm.withStore adds store)
      (.cons (.native ?_ (hcontext.mono adds.le) held) (hws.mono adds.le)) procedure args⟩
    exact fun L'' hle a b hab s s' hs => resume L'' hle a b hab s s' hs
  | @intern _ L₁ name s s' k k' adds store resume =>
    obtain ⟨L₂, hinterns, hanswer, hmachine⟩ :=
      (hm.withStore adds store).intern (hm.symbols.agree_of_canGrow hgrow name)
    have hle := adds.le.trans hinterns.le
    refine ⟨L₂, hle, hmachine, .native ?_ (hcontext.mono hle), hws.mono hle⟩
    exact fun s s' hs => resume L₂ hinterns.le _ _ hanswer s s' hs
  | print adds store resume =>
    refine ⟨_, adds.le, (hm.withStore adds store).print _, .native ?_ (hcontext.mono adds.le),
      hws.mono adds.le⟩
    exact fun s s' hs => resume _ (le_refl _) s s' hs
  | isSole adds store held resume =>
    refine ⟨_, adds.le, hm.withStore adds store, .native ?_ (hcontext.mono adds.le),
      hws.mono adds.le⟩
    have hanswer := hsole ⟨x, context, _, _, _, rfl, hprogram, rfl⟩
      ⟨x', context', _, _, _, rfl, hprogram', rfl⟩
    dsimp only [Machine.roots] at hanswer ⊢
    rw [hanswer]
    exact fun s s' hs => resume _ (le_refl _) _ s s' hs

omit hg hm hws

/-- The operands that the innermost waiting work has evaluated are on the call stack. -/
def Stocked (s : State) : Prop :=
  ∀ b site base count current ws, s.waiting = .operand b site base count current :: ws →
    count ≤ s.machine.calls.values.size

theorem Within.stocked {values : List Value} {depth : Nat} {s : State}
    (h : Within [] values depth s) : s.Stocked := by
  obtain ⟨m, control, waiting⟩ := s
  rintro b site base count current ws rfl
  have haccounts : Accounts [] values depth _ m.calls.values.toList m.depth := h
  generalize hvs : m.calls.values.toList = vs at haccounts
  cases haccounts with
  | above w args rest pushed =>
    rw [← Array.length_toList, hvs, List.length_append, pushed.2]
    exact Nat.le_add_left _ _

theorem Alike.asked {s s' : State} (hs : s.Alike L s') {program program' : Native Outcome}
    {context context' held held' : Held} {store store' : Store} {c : ClosureId}
    {resume resume' : Bool → Store → Interaction Outcome}
    (hcontrol : s.control = .native program context)
    (hcontrol' : s'.control = .native program' context')
    (hprogram : program s.machine.store = .isSole c held store resume)
    (hprogram' : program' s'.machine.store = .isSole (K.closure c) held' store' resume') :
    ∃ L', L ≤ L' ∧ store.Alike L' store' ∧ (context.append held).Alike L' (context'.append held') := by
  have halike := hs.control
  rw [hcontrol, hcontrol'] at halike
  cases halike with
  | native hrun hcontext =>
    have hrun := hrun _ _ hs.machine.store
    rw [hprogram, hprogram'] at hrun
    generalize hd : K.closure c = d at hrun
    cases hrun with
    | isSole adds store held resume =>
      exact ⟨_, adds.le, store, (hcontext.mono adds.le).append held⟩

theorem Alike.soleAlike_of_moored {s s' : State} (hs : s.Alike L s') {own shared : Ref → Prop}
    (hmoored : ∀ L', L ≤ L' → (s.step g).machine.store.Alike L' (s'.step g').machine.store →
      Moored K own shared (s.step g).machine.store (s'.step g').machine.store g.caller.refs
        g'.caller.refs) : SoleAlike K g g' s s' := by
  rintro c sole sole' ⟨program, context, held, store, resume, hcontrol, hprogram, rfl⟩
    ⟨program', context', held', store', resume', hcontrol', hprogram', rfl⟩
  obtain ⟨L', hle, hstore, hheld⟩ := hs.asked hcontrol hcontrol' hprogram hprogram'
  have hasked {g : Setting} {s : State} {program : Native Outcome} {context held : Held}
      {store : Store} {c : ClosureId} {resume : Bool → Store → Interaction Outcome}
      (hcontrol : s.control = .native program context)
      (hprogram : program s.machine.store = .isSole c held store resume) :
      (s.step g).machine.store = store := by
    simp only [State.step, hcontrol, runNative, hprogram]
  rw [hasked hcontrol hprogram, hasked hcontrol' hprogram'] at hmoored
  have hcalls := hs.machine.calls.mono fun _ _ => Value.Alike.mono hle
  have hroots := Machine.roots_eq hcalls hheld (Waits.mono hle hs.waiting)
  have hall := (hmoored L' hle hstore).append
    (s.machine.roots {} (context.append held) s.waiting)
  rw [← hroots, ← Machine.roots_eq_append, ← Machine.roots_eq_append] at hall
  exact hall.isSoleReference_eq hstore c

private theorem Alike.soleAlike {s s' : State} (hs : s.Alike L s') (hg : g.Alike L g') :
    SoleAlike K g g' s s' :=
  hs.soleAlike_of_moored fun _ _ _ => moored_of_eq hg.caller.refs_eq

/-- A step takes alike states to alike states. -/
theorem Alike.step_of_soleAlike {s s' : State} (hs : s.Alike L s') (hg : g.Akin K g')
    (hstocked : s.Stocked) (hsole : SoleAlike K g g' s s')
    (hgrow : K.strict ∨ (s.machine.symbols.CanGrow ∧ s'.machine.symbols.CanGrow)) :
    ∃ L', L ≤ L' ∧ (s.step g).Alike L' (s'.step g') := by
  obtain ⟨m, control, ws⟩ := s
  obtain ⟨m', control', ws'⟩ := s'
  obtain ⟨hm, hcontrol, hws⟩ := hs
  cases hcontrol with
  | eval expr env => exact ⟨L, le_refl L, alike_evalExpr hg (hm.count _) hws expr env⟩
  | native program context => exact alike_runNative hg hm hws hgrow program context hsole
  | answer result =>
    refine ⟨L, le_refl L, ?_⟩
    cases hws with
    | nil => exact ⟨hm, .answer result, .nil⟩
    | cons hw hws =>
      refine alike_deliver hg hm hws hw ?_ result
      rintro b site base count current rfl
      exact hstocked b site base count current _ rfl

private theorem Alike.step {s s' : State} (hs : s.Alike L s') (hg : g.Alike L g')
    (hstocked : s.Stocked)
    (hgrow : K.strict ∨ (s.machine.symbols.CanGrow ∧ s'.machine.symbols.CanGrow)) :
    ∃ L', L ≤ L' ∧ (s.step g).Alike L' (s'.step g') :=
  hs.step_of_soleAlike hg.toAkin hstocked (hs.soleAlike hg) hgrow

theorem Alike.after {s s' : State} (hs : s.Alike L s') (hg : g.Alike L g') {values : List Value}
    {depth : Nat} (hwithin : Within [] values depth s) (n : Nat)
    (hgrow : K.strict ∨ ∀ k < n, (after g k s).machine.symbols.CanGrow ∧
      (after g' k s').machine.symbols.CanGrow) :
    ∃ L', L ≤ L' ∧ (after g n s).Alike L' (after g' n s') := by
  induction n with
  | zero => exact ⟨L, le_refl L, hs⟩
  | succ n ih =>
    obtain ⟨L₁, hle₁, halike⟩ :=
      ih (hgrow.imp id fun h k hk => h k (Nat.lt_succ_of_lt hk))
    rw [after_succ, after_succ]
    obtain ⟨L₂, hle₂, hstep⟩ := halike.step (hg.mono hle₁) (within_after_nil hwithin n).stocked
      (hgrow.imp id fun h => h n (Nat.lt_succ_self n))
    exact ⟨L₂, hle₁.trans hle₂, hstep⟩

private theorem Alike.result? {s s' : State} (hs : s.Alike L s') :
    Option.Rel (Answer K.error (Value.Alike L)) s.result? s'.result? := by
  obtain ⟨m, control, ws⟩ := s
  obtain ⟨m', control', ws'⟩ := s'
  obtain ⟨-, hcontrol, hws⟩ := hs
  cases hcontrol with
  | eval expr env => exact .none
  | native program context => exact .none
  | answer result =>
    cases hws with
    | nil => exact .some result
    | cons _ _ => exact .none

structure Finished (L : Link K) (r r' : Except EvalError Value × Machine) : Prop where
  result : Answer K.error (Value.Alike L) r.1 r'.1
  machine : r.2.Alike L r'.2

/-- Runs from alike states end in the same number of steps, and alike. -/
theorem Alike.run {s s' : State} (hs : s.Alike L s') (hg : g.Alike L g') {values : List Value}
    {depth : Nat} (hwithin : Within [] values depth s) (fuel : Nat)
    (hgrow : K.strict ∨ ∀ k < fuel, (State.after g k s).machine.symbols.CanGrow ∧
      (State.after g' k s').machine.symbols.CanGrow) :
    Option.Rel (fun r r' => ∃ L', L ≤ L' ∧ Finished L' r r') (s.run g fuel) (s'.run g' fuel) := by
  cases fuel with
  | zero => exact .none
  | succ fuel =>
    obtain ⟨L', hle, halike⟩ := hs.after hg hwithin fuel
      (hgrow.imp id fun h k hk => h k (Nat.lt_succ_of_lt hk))
    have hresult := halike.result?
    rw [run_eq_after, run_eq_after]
    generalize (State.after g fuel s).result? = result at hresult
    generalize (State.after g' fuel s').result? = result' at hresult
    cases hresult with
    | none => exact .none
    | some h => exact .some ⟨L', hle, h, halike.machine⟩

end State
end MiniScheme
