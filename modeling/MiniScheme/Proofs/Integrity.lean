import MiniScheme.Proofs.Alike.Building
/-! # Integrity of evaluation

An interpreter with the standard library never meets a broken invariant of its own. Every closure that
a program makes can be called: it has a body, and its parameters have different names. Procedures of
the library are only run with as many arguments as they declare, so what they would do otherwise does
not matter. And what the evaluator relies on, values on the call stack and bodies of closures, is there
when it is looked for.
-/
namespace MiniScheme

namespace Standard

/-- The standard library with other code for arguments that are not as many as a procedure declares. -/
def replaced (other : Nat → NativeProcedure) : Library where
  procedures := (procedures.mapIdx fun k p args =>
    if p.2.1.accepts args.length then p.2.2 args else other k args).toArray
  forms := library.forms

/-- Values refer to code of the standard library with the arity it is declared with, and no error tells
of a broken invariant. -/
def terms : Terms where
  builtin b := ∃ p, procedures[b.id]? = some p ∧ p.1 = b.name ∧ p.2.1 = b.arity
  form f := ∃ p, forms[f.id]? = some p ∧ p.1 = f.name
  error e := e.isInternal = false
  strict := True
  error_of_not_internal h := h

private theorem standard_terms : terms.Standard :=
  ⟨fun h => ⟨_, h, rfl⟩, fun h => ⟨_, h, rfl, rfl⟩⟩

private theorem alike_forms {l l' : Library} (h : l.forms = library.forms)
    (h' : l'.forms = library.forms)
    {L : Link terms} {f : SpecialForm} {operands operands' : Value} (hf : terms.form f)
    (hoperands : operands.Alike L operands') (env : FrameId) :
    (l.form f operands env).Alike L Outcome.Alike (l'.form f operands' env) := by
  obtain ⟨p, hp, -⟩ := hf
  have hrule (l : Library) (h : l.forms = library.forms) : l.form f = p.2 := by
    unfold Library.form
    rw [h, library, Array.getD_eq_getD_getElem?, List.getElem?_toArray, List.getElem?_map, hp]
    rfl
  rw [hrule l h, hrule l' h']
  exact even_forms p (List.mem_of_getElem? hp) L operands operands' env hoperands

private theorem procedure_library {b : Builtin} {p : String × Arity × NativeProcedure}
    (hp : procedures[b.id]? = some p) : library.procedure b = p.2.2 := by
  unfold Library.procedure library
  rw [Array.getD_eq_getD_getElem?, List.getElem?_toArray, List.getElem?_map, hp]
  rfl

private theorem procedure_replaced {b : Builtin} {p : String × Arity × NativeProcedure}
    (hp : procedures[b.id]? = some p) (other : Nat → NativeProcedure) {args : List Value}
    (haccepts : p.2.1.accepts args.length = true) : (replaced other).procedure b args = p.2.2 args := by
  unfold Library.procedure replaced
  rw [Array.getD_eq_getD_getElem?, List.getElem?_toArray, List.getElem?_mapIdx, hp]
  exact if_pos haccepts

private theorem alike_library : library.Alike terms library where
  procedure {L b args args'} hb hargs _ := by
    obtain ⟨p, hp, -, -⟩ := hb
    rw [procedure_library hp]
    exact even_procedures p (List.mem_of_getElem? hp) L args args' hargs
  form hf hoperands env := alike_forms rfl rfl hf hoperands env

private theorem forms_replaced (other : Nat → NativeProcedure) :
    (replaced other).forms = library.forms := by
  unfold replaced
  rfl

private theorem size_procedures_replaced (other : Nat → NativeProcedure) :
    (replaced other).procedures.size = library.procedures.size := by
  simp [replaced, library]

/-- Code for unexpected numbers of arguments makes no difference. -/
theorem alike_replaced (other : Nat → NativeProcedure) : library.Alike terms (replaced other) where
  procedure {L b args args'} hb hargs haccepts := by
    obtain ⟨p, hp, -, harity⟩ := hb
    rw [← harity] at haccepts
    rw [hargs.length_eq] at haccepts
    rw [procedure_replaced hp other haccepts, procedure_library hp]
    exact even_procedures p (List.mem_of_getElem? hp) L args args' hargs
  form hf hoperands env := alike_forms rfl (forms_replaced other) hf hoperands env

end Standard

section Closures

variable {K : Terms} {L : Link K} {t : SymbolTable}

theorem Closure.Alike.nodup_names (ht : L.Reads t t) {c : Closure} (h : c.Alike L c) :
    (c.formals.symbols.map Symbol.name).Nodup := by
  rw [List.Nodup, List.pairwise_map]
  refine List.Pairwise.imp_of_mem ?_ h.distinct
  intro x y hx hy hdifferent hname
  have hlookup (x : Symbol) (hx : x ∈ c.formals.symbols) : t.lookup x.name = some x :=
    ht.symbol_self.mp (h.formals.symbol_of_mem x hx)
  have hsame := (ht.left.same_iff (hlookup x hx) (hlookup y hy)).mpr hname
  simp [hsame] at hdifferent

end Closures

/-- A state with nothing broken: closures can be called, and no error tells of a broken invariant. -/
structure State.Sound (s : State) : Prop where
  body : ∀ c ∈ s.machine.store.closures, c.body ≠ []
  parameters : ∀ c ∈ s.machine.store.closures, (c.formals.symbols.map Symbol.name).Nodup
  error : ∀ e, s.control = .answer (.error e) → e.isInternal = false

private theorem State.Alike.sound {L : Link Standard.terms} {s : State} (h : s.Alike L s) :
    s.Sound := by
  have hclosure {c : Closure} (hc : c ∈ s.machine.store.closures) : c.Alike L c :=
    h.machine.store.closure_self hc
  refine ⟨fun c hc => (hclosure hc).nonempty,
    fun c hc => (hclosure hc).nodup_names h.machine.symbols, ?_⟩
  intro e he
  have hcontrol := h.control
  rw [he] at hcontrol
  cases hcontrol with
  | answer hresult =>
    cases hresult with
    | error he => exact he

namespace Interpreter

/-- The interpreters that evaluating texts one after the other leads to. -/
inductive AfterSources (first : Interpreter) : Interpreter → Prop
  | start : AfterSources first first
  | next {i j : Interpreter} {fuel : Nat} {source : String} {result : Except EvalError Value}
    (before : AfterSources first i) (run : i.evalSource fuel source = some (result, j)) :
    AfterSources first j

variable {config : Config} {t : SymbolTable} {first i : Interpreter}

private theorem AfterSources.library_eq (h : AfterSources first i) : i.library = first.library := by
  induction h with
  | start => rfl
  | next _ run ih =>
    obtain ⟨m, rfl⟩ := exists_machine_evalRest run
    exact ih

private theorem AfterSources.alike (h : AfterSources first i) (hstandard : config.standard = true)
    (ht : t.InOrder) (hbuild : build config t = .ok first) :
    ∃ L : Link Standard.terms, i.Alike L i := by
  induction h with
  | start =>
    obtain ⟨L, -, hfirst⟩ := abreast_build Standard.standard_terms
      (Link.reads_ofTables 0 ht ht fun _ => rfl) rfl hbuild hbuild
    refine ⟨L, hfirst, ?_⟩
    rw [library_build hbuild, if_pos hstandard]
    exact Standard.alike_library
  | next _ run ih =>
    obtain ⟨L, hi⟩ := ih
    obtain ⟨L', -, hj⟩ := hi.of_evalSource trivial run
    exact ⟨L', hj⟩

private theorem Alike.withLibrary {K : Terms} {L : Link K} (h : i.Alike L i) {l : Library}
    (hprocedures : l.procedures.size = i.library.procedures.size)
    (hforms : l.forms.size = i.library.forms.size) (hlibrary : i.library.Alike K l) :
    i.Alike L { i with library := l } :=
  ⟨{ h.toAbreast with procedures := hprocedures, forms := hforms }, hlibrary⟩

/-- Evaluating a text with a library whose code is alike gives the same. -/
theorem Alike.evalSource_withLibrary {L : Link Standard.terms} {l : Library}
    (h : i.Alike L { i with library := l }) (fuel : Nat) (source : String) :
    { i with library := l }.evalSource fuel source =
      (i.evalSource fuel source).map fun finished =>
        (finished.1, { finished.2 with library := l }) := by
  have hended := h.evalSource fuel source (.inl trivial)
  generalize hx : i.evalSource fuel source = x at hended ⊢
  generalize hy : Interpreter.evalSource fuel { i with library := l } source = y at hended ⊢
  cases hended with
  | unfinished => rfl
  | finished _ hresult hj =>
    obtain ⟨m, rfl⟩ := exists_machine_evalRest hx
    obtain ⟨m', rfl⟩ := exists_machine_evalRest hy
    obtain rfl : m' = m := hj.machine.eq_of_exact ⟨trivial, trivial, rfl⟩
    cases hresult with
    | ok hv => rw [hv.eq_of_exact ⟨trivial, trivial, rfl⟩]; rfl
    | error _ => rfl

/-- No program meets a broken invariant of the evaluator. After any texts, and at every moment of
evaluating one more, closures can be called and no error tells of a broken invariant; and the code of
the library's procedures may be replaced wherever the arguments are not as many as declared, without
any difference. -/
theorem evaluation_stays_sound (hstandard : config.standard = true) (capacity : Nat)
    (maxCapacity : Option Nat) (hash : NameHash)
    (hbuild : build config (.withCapacity capacity maxCapacity hash) = .ok first)
    (hi : AfterSources first i) (source : String) :
    (∀ fuel s r, Passes fuel i (.ofString source) .unspecified s r → s.Sound) ∧
    (∀ fuel e j, i.evalSource fuel source = some (.error e, j) → e.isInternal = false) ∧
    ∀ other fuel, { i with library := Standard.replaced other }.evalSource fuel source =
      (i.evalSource fuel source).map fun finished =>
        (finished.1, { finished.2 with library := Standard.replaced other }) := by
  obtain ⟨L, halike⟩ := hi.alike hstandard (SymbolTable.inOrder_withCapacity _ _ _) hbuild
  refine ⟨?_, ?_, ?_⟩
  · intro fuel s r hpasses
    obtain ⟨L', -, hs, -⟩ := hpasses.alike trivial halike (Reader.alike_ofString L source)
      (.same trivial)
    exact hs.sound
  · intro fuel e j hrun
    obtain ⟨L', hresult, -⟩ := halike.of_evalSource trivial hrun
    cases hresult with
    | error he => exact he
  · intro other fuel
    have hlibrary : i.library = Standard.library := by
      rw [hi.library_eq, library_build hbuild, if_pos hstandard]
    refine Alike.evalSource_withLibrary (halike.withLibrary ?_ ?_ ?_) fuel source
    · rw [hlibrary, Standard.size_procedures_replaced]
    · rw [hlibrary, Standard.forms_replaced]
    · rw [hlibrary]
      exact Standard.alike_replaced other

/-- A procedure that applies `car` to what it is given, called with two arguments. The code that `car`
has for two arguments does not matter: it is not run. -/
theorem car_of_two_stays_sound :
    ∃ first i e j result,
      build {} (.withCapacity 1 (some 127) .polynomial) = .ok first ∧
      first.evalSource 60 "(define (f . r) (apply car r))" = some (result, i) ∧
      i.evalSource 60 "(f 1 2)" = some (.error e, j) ∧ e.isInternal = false ∧
      (∀ s r, Passes 60 i (.ofString "(f 1 2)") .unspecified s r → s.Sound) ∧
      { i with library := Standard.replaced fun _ _ => Native.endless }.evalSource 60 "(f 1 2)" =
        some (.error e, { j with library := Standard.replaced fun _ _ => Native.endless }) := by
  have hrun : ((build {} (.withCapacity 1 (some 127) .polynomial)).toOption.bind fun first =>
      (first.evalSource 60 "(define (f . r) (apply car r))").bind fun before =>
        (before.2.evalSource 60 "(f 1 2)").map fun after => after.1.toOption) = some none := by
    decide +kernel
  obtain ⟨first, hbuild, hrun⟩ := Option.bind_eq_some_iff.mp hrun
  obtain ⟨⟨result, i⟩, hdefine, hrun⟩ := Option.bind_eq_some_iff.mp hrun
  obtain ⟨⟨answer, j⟩, hcall, hanswer⟩ := Option.map_eq_some_iff.mp hrun
  have hbuild := build_eq_ok hbuild
  cases answer with
  | ok v => simp [Except.toOption] at hanswer
  | error e =>
    have hsound := evaluation_stays_sound rfl 1 (some 127) .polynomial hbuild
      (.next .start hdefine) "(f 1 2)"
    refine ⟨first, i, e, j, result, hbuild, hdefine, hcall, hsound.2.1 60 e j hcall, hsound.1 60, ?_⟩
    rw [hsound.2.2, hcall]
    rfl

end Interpreter
end MiniScheme
