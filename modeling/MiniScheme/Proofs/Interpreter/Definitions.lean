import MiniScheme.Interpreter
import MiniScheme.Proofs.Native.Standard
/-! # Definitions made by the host

A variable, a native procedure and a special form are defined in one way: the name is interned, the
library gets what there is to add, and the name is bound in the outermost frame. `build` is nothing
but such definitions one after the other, so what each of them keeps holds of what is built, and its
library is the standard one in the order of the definitions.
-/
namespace MiniScheme

namespace Interpreter

variable {i j : Interpreter} {name : String} {add : Library → Value × Library}

/-- Define a name as the value that an addition to the library gives. -/
def introduce (i : Interpreter) (name : String) (add : Library → Value × Library) :
    Except EvalError Unit × Interpreter :=
  match i.intern name with
  | (.ok x, i) => (.ok (), { i with library := (add i.library).2 }.bindGlobal x (add i.library).1)
  | (.error e, i) => (.error e, i)

theorem defineGlobal_eq_introduce (i : Interpreter) (name : String) (v : Value) :
    i.defineGlobal name v = i.introduce name (fun l => (v, l)) :=
  rfl

theorem defineForm_eq_introduce (i : Interpreter) (name : String) (rule : NativeForm) :
    i.defineForm name rule = i.introduce name (·.addForm name rule) :=
  rfl

theorem defineProcedure_eq_introduce (i : Interpreter) (name : String) (arity : Arity)
    (body : NativeProcedure) :
    i.defineProcedure name arity body = i.introduce name (·.addProcedure name arity body) :=
  rfl

theorem introduce_ok (h : i.introduce name add = (.ok (), j)) :
    ∃ x, i.symbols.intern name = (.ok x, j.symbols) ∧ j.global = i.global ∧
      j.machine.store = i.machine.store.define i.global x (add i.library).1 ∧
      j.library = (add i.library).2 ∧ j.machine.depth = i.machine.depth ∧
      j.maxDepth = i.maxDepth := by
  obtain ⟨⟨store, symbols, calls, depth, counters, output⟩, library, maxDepth, global⟩ := i
  simp only [introduce, Interpreter.intern, Machine.intern] at h
  change ∃ x, symbols.intern name = (.ok x, j.symbols) ∧ _
  generalize symbols.intern name = interned at h ⊢
  obtain ⟨answer, u⟩ := interned
  cases answer with
  | error e => simp at h
  | ok x =>
    obtain rfl := (Prod.mk.inj h).2
    exact ⟨x, rfl, rfl, rfl, rfl, rfl, rfl⟩

theorem symbols_introduce (i : Interpreter) (name : String) (add : Library → Value × Library) :
    (i.introduce name add).2.symbols = (i.symbols.intern name).2 := by
  obtain ⟨⟨store, symbols, calls, depth, counters, output⟩, library, maxDepth, global⟩ := i
  simp only [introduce, Interpreter.intern, Machine.intern]
  change _ = (symbols.intern name).2
  generalize symbols.intern name = interned
  obtain ⟨answer, u⟩ := interned
  cases answer <;> rfl

theorem library_intern (i : Interpreter) (name : String) :
    (i.intern name).2.library = i.library := by
  obtain ⟨machine, library, maxDepth, global⟩ := i
  rfl

theorem library_introduce (i : Interpreter) (name : String) (add : Library → Value × Library) :
    (i.introduce name add).2.library = (add i.library).2 ∨
      (i.introduce name add).2.library = i.library := by
  rcases hj : i.introduce name add with ⟨e | ⟨⟩, j⟩
  · right
    have hlibrary := library_intern i name
    unfold introduce at hj
    split at hj
    · simp at hj
    · next heq =>
      rw [heq] at hlibrary
      rwa [(Prod.mk.inj hj).2] at hlibrary
  · obtain ⟨-, -, -, -, hlibrary, -⟩ := introduce_ok hj
    exact .inl hlibrary

section DefineEach

variable {α : Type} {items : List α} {define : Interpreter → α → Except EvalError Unit × Interpreter}

/-- What every definition keeps is kept by definitions one after the other. -/
theorem of_defineEach {P : Interpreter → Prop} (hdefine : ∀ i a, P i → P (define i a).2) (h : P i)
    (hj : defineEach define i items = .ok j) : P j := by
  induction items generalizing i with
  | nil =>
    obtain rfl : i = j := by simpa [defineEach] using hj
    exact h
  | cons a items ih =>
    have hfirst := hdefine i a h
    rw [defineEach] at hj
    split at hj
    · next k heq =>
      rw [heq] at hfirst
      exact ih hfirst hj
    · simp at hj

theorem library_defineEach (nameOf : α → String) (add : α → Library → Value × Library)
    (hdefine : ∀ i a, define i a = i.introduce (nameOf a) (add a))
    (hj : defineEach define i items = .ok j) :
    j.library = items.foldl (fun l a => (add a l).2) i.library := by
  induction items generalizing i with
  | nil =>
    obtain rfl : i = j := by simpa [defineEach] using hj
    rfl
  | cons a items ih =>
    rw [defineEach] at hj
    split at hj
    · next k hk =>
      rw [hdefine] at hk
      obtain ⟨-, -, -, -, hlibrary, -⟩ := introduce_ok hk
      rw [List.foldl_cons, ← hlibrary]
      exact ih hj
    · simp at hj

end DefineEach

private theorem foldl_addForm (forms : List (String × NativeForm)) (l : Library) :
    forms.foldl (fun l form => (l.addForm form.1 form.2).2) l =
      { l with forms := l.forms ++ (forms.map (·.2)).toArray } := by
  induction forms generalizing l with
  | nil => simp
  | cons form forms ih =>
    rw [List.foldl_cons, ih]
    simp [Library.addForm]

private theorem foldl_addProcedure (procedures : List (String × Arity × NativeProcedure))
    (l : Library) :
    procedures.foldl (fun l p => (l.addProcedure p.1 p.2.1 p.2.2).2) l =
      { l with procedures := l.procedures ++ (procedures.map (·.2.2)).toArray } := by
  induction procedures generalizing l with
  | nil => simp
  | cons p procedures ih =>
    rw [List.foldl_cons, ih]
    simp [Library.addProcedure]

theorem library_defineForms {forms : List (String × NativeForm)}
    (h : defineEach (fun i form => i.defineForm form.1 form.2) i forms = .ok j) :
    j.library = { i.library with forms := i.library.forms ++ (forms.map (·.2)).toArray } := by
  rw [← foldl_addForm]
  exact library_defineEach (fun form : String × NativeForm => form.1)
    (fun form l => l.addForm form.1 form.2) (fun _ _ => rfl) h

private theorem library_defineProcedures {procedures : List (String × Arity × NativeProcedure)}
    (h : defineEach (fun i p => i.defineProcedure p.1 p.2.1 p.2.2) i procedures = .ok j) :
    j.library = { i.library with
      procedures := i.library.procedures ++ (procedures.map (·.2.2)).toArray } := by
  rw [← foldl_addProcedure]
  exact library_defineEach (fun p : String × Arity × NativeProcedure => p.1)
    (fun p l => l.addProcedure p.1 p.2.1 p.2.2) (fun _ _ => rfl) h

section Build

variable {config : Config} {t : SymbolTable}

/-- What holds of an interpreter with nothing defined, and is kept by every definition, holds of
every interpreter that is built. -/
theorem of_build {P : Interpreter → Prop} (hbare : P (bare config t))
    (hdefine : ∀ i name add, P i → P (introduce i name add).2) (hi : build config t = .ok i) :
    P i := by
  unfold build at hi
  dsimp only at hi
  split at hi
  · split at hi
    · next j hforms =>
      have hj : P j := by
        refine of_defineEach ?_ hbare hforms
        intro i form
        exact hdefine i form.1 (·.addForm form.1 form.2)
      refine of_defineEach ?_ hj hi
      intro i p
      exact hdefine i p.1 (·.addProcedure p.1 p.2.1 p.2.2)
    · simp at hi
  · obtain rfl : bare config t = i := by simpa using hi
    exact hbare

theorem library_build (h : build config t = .ok i) :
    i.library = if config.standard then Standard.library else {} := by
  unfold build at h
  dsimp only at h
  split at h
  · next hstandard =>
    split at h
    · next j hforms =>
      rw [library_defineProcedures h, library_defineForms hforms, if_pos hstandard]
      simp [bare, Standard.library]
    · simp at h
  · next hstandard =>
    obtain rfl : bare config t = i := by simpa using h
    rw [if_neg hstandard]
    rfl

end Build

end Interpreter
end MiniScheme
