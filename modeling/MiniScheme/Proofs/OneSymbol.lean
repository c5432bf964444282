import MiniScheme.Proofs.Alike.Building
/-! # One symbol for each name

Symbols are compared by identity. That this comes to comparing names needs that no symbol is about but
those of the table: neither a name that the table refused nor the move to more slots may leave another
one behind. It holds of all that an interpreter stores, evaluates and reads, after any definitions of
the host and at every moment of an evaluation.
-/
namespace MiniScheme

/-- The symbol stands somewhere in the store. -/
inductive Store.Mentions (s : Store) (x : Symbol) : Prop
  | first {c : Cell} (mem : c ∈ s.cells) (eq : c.first = .symbol x)
  | rest {c : Cell} (mem : c ∈ s.cells) (eq : c.rest = .symbol x)
  | key {f : Frame} {v : Value} (mem : f ∈ s.frames) (bound : (x, v) ∈ f.bindings)
  | value {f : Frame} {y : Symbol} (mem : f ∈ s.frames) (bound : (y, .symbol x) ∈ f.bindings)
  | parameter {c : Closure} (mem : c ∈ s.closures) (parameter : x ∈ c.formals.symbols)
  | code {c : Closure} (mem : c ∈ s.closures) (code : .symbol x ∈ c.body)

def Control.values : Control → List Value
  | eval expr _ => [expr]
  | native _ context => context.values
  | answer (.ok v) => [v]
  | answer (.error _) => []

inductive State.Mentions (s : State) (x : Symbol) : Prop
  | store (stored : s.machine.store.Mentions x)
  | calls (waits : .symbol x ∈ s.machine.calls.values)
  | control (current : .symbol x ∈ s.control.values)
  | waiting {w : Waiting} (mem : w ∈ s.waiting) (held : .symbol x ∈ w.held.values)

section Alike

variable {K : Terms} {L : Link K} {x : Symbol}

private theorem Value.Alike.symbol_iff : (Value.symbol x).Alike L (.symbol x) ↔ L.symbol x x := by
  constructor
  · intro h
    cases h with
    | symbol h => exact h
    | same h => exact h.elim
  · exact .symbol

private theorem Values.symbol_of_mem {vs : List Value} (h : Values L vs vs) (hx : .symbol x ∈ vs) :
    L.symbol x x :=
  Value.Alike.symbol_iff.mp (List.forall₂_same.mp h _ hx)

private theorem Store.Alike.symbol_of_mentions {s : Store} (h : s.Alike L s) (hx : s.Mentions x) :
    L.symbol x x := by
  cases hx with
  | first mem eq =>
    have hc := (h.cells.self_of_mem mem).first
    rw [eq] at hc
    exact Value.Alike.symbol_iff.mp hc
  | rest mem eq =>
    have hc := (h.cells.self_of_mem mem).rest
    rw [eq] at hc
    exact Value.Alike.symbol_iff.mp hc
  | key mem bound => exact (List.forall₂_same.mp (h.frames.self_of_mem mem).bindings _ bound).name
  | value mem bound =>
    exact Value.Alike.symbol_iff.mp (List.forall₂_same.mp (h.frames.self_of_mem mem).bindings _ bound).value
  | parameter mem parameter => exact (h.closure_self mem).formals.symbol_of_mem x parameter
  | code mem code => exact (h.closure_self mem).body.symbol_of_mem code

private theorem State.Alike.symbol_of_mentions {s : State} (h : s.Alike L s) (hx : s.Mentions x) :
    L.symbol x x := by
  cases hx with
  | store stored => exact h.machine.store.symbol_of_mentions stored
  | calls waits => exact Values.symbol_of_mem h.machine.calls (Array.mem_toList_iff.mpr waits)
  | control current =>
    have hcontrol := h.control
    generalize s.control = control at current hcontrol
    cases hcontrol with
    | eval expr env => exact Values.symbol_of_mem (.cons expr .nil) current
    | native program context => exact context.values.symbol_of_mem current
    | answer result =>
      cases result with
      | ok hv => exact Values.symbol_of_mem (.cons hv .nil) current
      | error _ => simp [Control.values] at current
  | waiting mem held => exact (List.forall₂_same.mp h.waiting _ mem).held.values.symbol_of_mem held

end Alike

/-- The value is the interpreter's own: its symbol, or its closure. -/
def Interpreter.Knows (i : Interpreter) : Value → Prop
  | .symbol x => i.symbols.lookup x.name = some x
  | .closure c => c.index < i.machine.store.closures.size
  | _ => True

namespace Interpreter

/-- What the host can make of an interpreter: evaluate texts, intern names and define values, native
procedures and forms, each of which may also fail. Native code takes its symbols from what it is given
and from the table, as that of the standard library does. -/
inductive Reachable : Interpreter → Prop
  | build {config : Config} {capacity : Nat} {maxCapacity : Option Nat} {hash : NameHash}
    {i : Interpreter} (built : build config (.withCapacity capacity maxCapacity hash) = .ok i) :
    Reachable i
  | evalSource {i j : Interpreter} {fuel : Nat} {source : String} {result : Except EvalError Value}
    (before : Reachable i) (run : i.evalSource fuel source = some (result, j)) : Reachable j
  | intern {i : Interpreter} (before : Reachable i) (name : String) : Reachable (i.intern name).2
  | defineGlobal {i : Interpreter} (before : Reachable i) (name : String) {v : Value}
    (known : i.Knows v) : Reachable (i.defineGlobal name v).2
  | defineProcedure {i : Interpreter} (before : Reachable i) (name : String) (arity : Arity)
    {body : NativeProcedure} (even : Procedures.Even (Terms.any True) body) :
    Reachable (i.defineProcedure name arity body).2
  | defineForm {i : Interpreter} (before : Reachable i) (name : String) {rule : NativeForm}
    (even : Forms.Even (Terms.any True) rule) : Reachable (i.defineForm name rule).2

variable {i : Interpreter}

private theorem Reachable.even (h : Reachable i) : i.library.Even (Terms.any True) := by
  induction h with
  | build built => exact even_build built
  | evalSource _ run ih =>
    obtain ⟨m, rfl⟩ := exists_machine_evalRest run
    exact ih
  | intern _ name ih =>
    rw [library_intern]
    exact ih
  | @defineGlobal i _ name v _ ih =>
    rw [defineGlobal_eq_introduce]
    rcases library_introduce i name (fun l => (v, l)) with hlibrary | hlibrary <;> rw [hlibrary] <;>
      exact ih
  | @defineProcedure i _ name arity body even ih =>
    rw [defineProcedure_eq_introduce]
    rcases library_introduce i name (·.addProcedure name arity body) with hlibrary | hlibrary <;>
      rw [hlibrary]
    · exact ih.addProcedure name arity even
    · exact ih
  | @defineForm i _ name rule even ih =>
    rw [defineForm_eq_introduce]
    rcases library_introduce i name (·.addForm name rule) with hlibrary | hlibrary <;> rw [hlibrary]
    · exact ih.addForm name even
    · exact ih

private theorem Knows.alike {K : Terms} {L : Link K} (h : i.Abreast L i) (hK : ∀ b, K.builtin b)
    (hK' : ∀ f, K.form f) {v : Value} (hv : i.Knows v) : v.Alike L v := by
  cases v with
  | symbol x => exact .symbol (h.machine.symbols.symbol_self.mpr hv)
  | closure c =>
    have hc : c.index < L.closures := h.machine.store.count ▸ hv
    refine Value.alike_self hc ?_
    rw [K.closure_of_none h.machine.store.spare_eq_none, Value.rename_id]
  | builtin b => exact .same (hK b)
  | form f => exact .same (hK' f)
  | _ => exact .same trivial

private theorem Reachable.abreast (h : Reachable i) : ∃ L :
    Link (Terms.any True), i.Abreast L i := by
  induction h with
  | build built =>
    obtain ⟨L, -, h⟩ := abreast_build (Terms.standard_any True)
      (Link.reads_ofTables 0 (SymbolTable.inOrder_withCapacity _ _ _)
        (SymbolTable.inOrder_withCapacity _ _ _) fun _ => rfl) rfl built built
    exact ⟨L, h⟩
  | @evalSource i j fuel source result before run ih =>
    obtain ⟨L, h⟩ := ih
    have halike : i.Alike L i := ⟨h, before.even.alike_any⟩
    obtain ⟨L', -, hj⟩ := halike.of_evalSource trivial run
    exact ⟨L', hj.toAbreast⟩
  | intern _ name ih =>
    obtain ⟨L, h⟩ := ih
    obtain ⟨L', -, -, hinterned⟩ := h.intern (.inl trivial)
    exact ⟨L', hinterned⟩
  | @defineGlobal i _ name v known ih =>
    obtain ⟨L, h⟩ := ih
    have hv : v.Alike L v := Knows.alike h (fun _ => trivial) (fun _ => trivial) known
    obtain ⟨L', -, hdefined⟩ := h.defineGlobal hv (.inl trivial)
    exact ⟨L', hdefined⟩
  | defineProcedure _ name arity _ ih =>
    obtain ⟨L, h⟩ := ih
    obtain ⟨L', -, hdefined⟩ := h.defineProcedure _ _ (.inl trivial) trivial
    exact ⟨L', hdefined⟩
  | defineForm _ name _ ih =>
    obtain ⟨L, h⟩ := ih
    obtain ⟨L', -, hdefined⟩ := h.defineForm _ _ (.inl trivial) trivial
    exact ⟨L', hdefined⟩

/-- There is one symbol for each name. At every moment of evaluating a text, by an interpreter that may
have failed to intern names before, every symbol that stands in the state or in the reader is the one
that the table has for its name. So `eq?` of two of them is true if and only if `symbol->string` gives
the same string for both. -/
theorem one_symbol_per_name (hi : Reachable i) (source : String) (fuel : Nat) (s : State) (r : Reader)
    (hpasses : Passes fuel i (.ofString source) .unspecified s r) :
    (∀ x, s.Mentions x ∨ r.quotation = some x → s.machine.symbols.lookup x.name = some x) ∧
    ∀ x y, s.Mentions x ∨ r.quotation = some x → s.Mentions y ∨ r.quotation = some y →
      ∀ store, ∃ answer name name',
        Procedures.isSame [.symbol x, .symbol y] store = .done (.bool answer) store ∧
        Procedures.symbolToString [.symbol x] store = .done (.str name) store ∧
        Procedures.symbolToString [.symbol y] store = .done (.str name') store ∧
        (answer = true ↔ name = name') := by
  obtain ⟨L, habreast⟩ := hi.abreast
  have halike : i.Alike L i := ⟨habreast, hi.even.alike_any⟩
  obtain ⟨L', -, hs, hr⟩ := hpasses.alike trivial halike (Reader.alike_ofString L source)
    (.same trivial)
  have hlookup (x : Symbol) (hx : s.Mentions x ∨ r.quotation = some x) :
      s.machine.symbols.lookup x.name = some x := by
    rw [← hs.machine.symbols.symbol_self]
    rcases hx with hx | hx
    · exact hs.symbol_of_mentions hx
    · have hquotation := hr.quotation
      rw [hx] at hquotation
      cases hquotation with
      | some hx => exact hx
  refine ⟨hlookup, ?_⟩
  intro x y hx hy store
  exact ⟨x.same y, x.name, y.name, rfl, rfl, rfl,
    hs.machine.symbols.left.same_iff (hlookup x hx) (hlookup y hy)⟩

/-- A host has defined three names in a table with room for five. -/
def crowded : Interpreter :=
  let i := bare { standard := false } (.withCapacity 7 (some 7) .polynomial)
  let i := (i.defineForm "quote" Forms.quote).2
  let i := (i.defineProcedure "list" (.atLeast 0) Procedures.list).2
  (i.defineProcedure "string->symbol" (.exact 1) Procedures.stringToSymbol).2

private theorem reachable_crowded : Reachable crowded := by
  have hbuilt : build { standard := false } (.withCapacity 7 (some 7) .polynomial) =
    .ok (bare { standard := false } (.withCapacity 7 (some 7) .polynomial)) := rfl
  refine .defineProcedure (.defineProcedure (.defineForm (.build hbuilt) _ ?_) _ _ ?_) _ _ ?_
  · exact Standard.even_forms ("quote", Forms.quote) (by simp [Standard.forms])
  · exact Procedures.even_lists ("list", .atLeast 0, Procedures.list) (by simp [Procedures.lists])
  · exact Procedures.even_strings ("string->symbol", .exact 1, Procedures.stringToSymbol)
      (by simp [Procedures.strings])

/-- The third operand has just been refused its symbol. The first two wait on the call stack as the
symbols that the table has for their names, one of them read and the other made from a string. -/
theorem symbol_of_full_table :
    ∃ s r, Passes 33 crowded
        (.ofString "(list 'x (string->symbol \"y\") (string->symbol \"z\"))") .unspecified s r ∧
      s.machine.calls.values.toList = [.symbol ⟨3, "x"⟩, .symbol ⟨4, "y"⟩] ∧
      s.control.values = [] ∧ s.waiting.length = 3 ∧ r.quotation = some ⟨0, "quote"⟩ ∧
      s.machine.symbols.lookup "x" = some ⟨3, "x"⟩ ∧ s.machine.symbols.lookup "y" = some ⟨4, "y"⟩ ∧
      s.machine.symbols.lookup "quote" = some ⟨0, "quote"⟩ := by
  let r : Reader := .ofString "(list 'x (string->symbol \"y\") (string->symbol \"z\"))"
  let after := (crowded.readValue r).2.1
  let j := (crowded.readValue r).2.2
  let s := j.evaluating ⟨[.unspecified], []⟩ (.pair ⟨9⟩) j.global 31
  have houtcome : (crowded.readValue r).1 = .ok (some (.pair ⟨9⟩)) := by decide +kernel
  have hread : crowded.readValue r = (.ok (some (.pair ⟨9⟩)), after, j) := Prod.ext houtcome rfl
  have hcalls : s.machine.calls.values.toList = [.symbol ⟨3, "x"⟩, .symbol ⟨4, "y"⟩] := by
    decide +kernel
  have hquotation : after.quotation = some ⟨0, "quote"⟩ := by decide +kernel
  have hpasses : Passes 33 crowded r .unspecified s after :=
    .evaluate hread .unspecified (by decide)
  have hsymbols := (one_symbol_per_name reachable_crowded _ 33 s after hpasses).1
  have hmem {x : Symbol} (hx : .symbol x ∈ s.machine.calls.values.toList) :
      s.machine.symbols.lookup x.name = some x :=
    hsymbols x (.inl (.calls (Array.mem_toList_iff.mp hx)))
  refine ⟨s, after, hpasses, hcalls, by decide +kernel, by decide +kernel, hquotation, ?_, ?_, ?_⟩
  · exact hmem (x := ⟨3, "x"⟩) (by simp [hcalls])
  · exact hmem (x := ⟨4, "y"⟩) (by simp [hcalls])
  · exact hsymbols ⟨0, "quote"⟩ (.inr hquotation)

end Interpreter
end MiniScheme
