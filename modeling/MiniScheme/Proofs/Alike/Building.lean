import MiniScheme.Proofs.Alike.Interpreter
import MiniScheme.Proofs.Alike.Standard
import MiniScheme.Proofs.Interpreter.Definitions
/-! # Interpreters built alike

Definitions made by the host intern one name each and bind it in the outermost frame. Made in the same
order they keep interpreters alike, and native code that is defined gets the same place in both
libraries. So interpreters that are built with one configuration are alike, whatever their tables.
-/
namespace MiniScheme

variable {K : Terms} {L L' : Link K} {t t' : SymbolTable}

namespace Interpreter

variable {i i' j j' : Interpreter} {name : String} {add add' : Library → Value × Library}

private theorem intern_ok_of_introduce (h : i.introduce name add = (.ok (), j)) :
    ∃ x u, i.symbols.intern name = (.ok x, u) := by
  obtain ⟨x, hintern, -⟩ := introduce_ok h
  exact ⟨x, j.symbols, hintern⟩

private theorem agree_of_introduce (h : i.introduce name add = (.ok (), j))
    (h' : i'.introduce name add' = (.ok (), j')) : Link.Agree K i.symbols i'.symbols name :=
  .inr ⟨intern_ok_of_introduce h, intern_ok_of_introduce h'⟩

private theorem grows_introduce (h : i.symbols.InOrder) (name : String)
    (add : Library → Value × Library) : i.symbols.Grows (i.introduce name add).2.symbols := by
  rw [symbols_introduce]
  exact (h.grows_intern name).1

theorem grows_build {config : Config} (h : t.InOrder) (hi : build config t = .ok i) :
    t.Grows i.symbols := by
  have hbare : t.Grows (bare config t).symbols := h.grows_refl
  refine of_build (P := fun i => t.Grows i.symbols) hbare ?_ hi
  intro j name add hj
  exact hj.trans (grows_introduce hj.inOrder name add)

private theorem abreast_bare (config : Config) (ht : L.Reads t t') (hempty : L.closures = 0)
    (hnone : K.spare = none) : (bare config t).Abreast L (bare config t') := by
  have hstore : Store.empty.Alike L Store.empty := by
    refine ⟨.nil, .nil, fun hc => ?_, hempty.symm, ?_, fun hK => ?_⟩
    · simp [hempty] at hc
    · rw [K.count_of_none hnone, hempty]
      rfl
    · simp [hnone] at hK
  have hframe := hstore.newFrame none
  exact ⟨⟨hframe.2, ht, .nil, fun _ => rfl, rfl, fun _ => rfl, rfl⟩, rfl, rfl, rfl, rfl⟩

theorem Abreast.intern (h : i.Abreast L i') (hagree : Link.Agree K i.symbols i'.symbols name) :
    ∃ L', L.Interns L' ∧ Answer K.error L'.symbol (i.intern name).1 (i'.intern name).1 ∧
      (i.intern name).2.Abreast L' (i'.intern name).2 := by
  obtain ⟨L', hinterns, hanswer, hmachine⟩ := h.machine.intern hagree
  exact ⟨L', hinterns, hanswer, { h with machine := hmachine }⟩

private theorem Abreast.bindGlobal (h : i.Abreast L i') {x x' : Symbol} (hx : L.symbol x x')
    {v v' : Value} (hv : v.Alike L v') : (i.bindGlobal x v).Abreast L (i'.bindGlobal x' v') := by
  have hstore : (i.machine.store.define i.global x v).Alike L
      (i'.machine.store.define i'.global x' v') := by
    rw [h.global]
    exact h.machine.store.define i.global hx hv
  exact { h with machine := h.machine.withStore (.refl L) hstore }

theorem Abreast.introduce (h : i.Abreast L i') (hagree : Link.Agree K i.symbols i'.symbols name)
    (hvalue : (add i.library).1.Alike L (add' i'.library).1)
    (hprocedures : (add' i'.library).2.procedures.size = (add i.library).2.procedures.size)
    (hforms : (add' i'.library).2.forms.size = (add i.library).2.forms.size) :
    ∃ L', L.Interns L' ∧ (i.introduce name add).2.Abreast L' (i'.introduce name add').2 := by
  obtain ⟨L', hinterns, hanswer, hinterned⟩ := h.intern hagree
  refine ⟨L', hinterns, ?_⟩
  have hlibrary := library_intern i name
  have hlibrary' := library_intern i' name
  unfold Interpreter.introduce
  generalize i.intern name = interned at hanswer hinterned hlibrary ⊢
  generalize i'.intern name = interned' at hanswer hinterned hlibrary' ⊢
  obtain ⟨answer, j⟩ := interned
  obtain ⟨answer', j'⟩ := interned'
  cases hanswer with
  | error _ => exact hinterned
  | ok hx =>
    dsimp only at hlibrary hlibrary' ⊢
    rw [hlibrary, hlibrary']
    have hadded : Abreast L' { j with library := (add i.library).2 }
        { j' with library := (add' i'.library).2 } :=
      { hinterned with procedures := hprocedures, forms := hforms }
    exact hadded.bindGlobal hx (hvalue.mono hinterns.le)

theorem Abreast.defineGlobal (h : i.Abreast L i') {v v' : Value} (hv : v.Alike L v')
    (hagree : Link.Agree K i.symbols i'.symbols name) :
    ∃ L', L.Interns L' ∧ (i.defineGlobal name v).2.Abreast L' (i'.defineGlobal name v').2 := by
  rw [defineGlobal_eq_introduce, defineGlobal_eq_introduce]
  exact h.introduce hagree hv h.procedures h.forms

theorem Abreast.defineForm (h : i.Abreast L i') (rule rule' : NativeForm)
    (hagree : Link.Agree K i.symbols i'.symbols name)
    (hK : K.form ⟨i.library.forms.size, name⟩) :
    ∃ L', L.Interns L' ∧ (i.defineForm name rule).2.Abreast L' (i'.defineForm name rule').2 := by
  rw [defineForm_eq_introduce, defineForm_eq_introduce]
  apply h.introduce hagree
  · simp only [Library.addForm, h.forms]
    exact .same hK
  · exact h.procedures
  · simp only [Library.addForm, Array.size_push, h.forms]

theorem Abreast.defineProcedure (h : i.Abreast L i') {arity : Arity} (body body' : NativeProcedure)
    (hagree : Link.Agree K i.symbols i'.symbols name)
    (hK : K.builtin ⟨i.library.procedures.size, name, arity⟩) :
    ∃ L', L.Interns L' ∧ (i.defineProcedure name arity body).2.Abreast L'
      (i'.defineProcedure name arity body').2 := by
  rw [defineProcedure_eq_introduce, defineProcedure_eq_introduce]
  apply h.introduce hagree
  · simp only [Library.addProcedure, h.procedures]
    exact .same hK
  · simp only [Library.addProcedure, Array.size_push, h.procedures]
  · exact h.forms

theorem Abreast.defineEach {α : Type} {items : List α}
    {define : Interpreter → α → Except EvalError Unit × Interpreter} (place : Interpreter → Nat)
    (fits : Nat → α → Prop) (hplace : ∀ i a j, define i a = (.ok (), j) → place j = place i + 1)
    (hstep : ∀ (L : Link K) i i' a j j', i.Abreast L i' → fits (place i) a →
      define i a = (.ok (), j) → define i' a = (.ok (), j') → ∃ L', L.Interns L' ∧ j.Abreast L' j')
    (h : i.Abreast L i') (hfits : ∀ k a, items[k]? = some a → fits (place i + k) a)
    (hj : Interpreter.defineEach define i items = .ok j)
    (hj' : Interpreter.defineEach define i' items = .ok j') :
    ∃ L', L.Interns L' ∧ j.Abreast L' j' := by
  induction items generalizing L i i' with
  | nil =>
    obtain rfl : i = j := by simpa [Interpreter.defineEach] using hj
    obtain rfl : i' = j' := by simpa [Interpreter.defineEach] using hj'
    exact ⟨L, .refl L, h⟩
  | cons a items ih =>
    rw [Interpreter.defineEach] at hj hj'
    split at hj
    · next k hdefine =>
      split at hj'
      · next k' hdefine' =>
        obtain ⟨L₁, hinterns, hk⟩ := hstep L i i' a k k' h (hfits 0 a rfl) hdefine hdefine'
        have hrest (n : Nat) (b : α) (hb : items[n]? = some b) : fits (place k + n) b := by
          rw [hplace i a k hdefine, Nat.add_assoc, Nat.add_comm 1 n]
          exact hfits (n + 1) b hb
        obtain ⟨L₂, hinterns', hend⟩ := ih hk hrest hj hj'
        exact ⟨L₂, hinterns.trans hinterns', hend⟩
      · simp at hj'
    · simp at hj

private theorem Abreast.defineForms {forms : List (String × NativeForm)} (h : i.Abreast L i')
    (hK : ∀ k p, forms[k]? = some p → K.form ⟨i.library.forms.size + k, p.1⟩)
    (hj : Interpreter.defineEach (fun i form => i.defineForm form.1 form.2) i forms = .ok j)
    (hj' : Interpreter.defineEach (fun i form => i.defineForm form.1 form.2) i' forms = .ok j') :
    ∃ L', L.Interns L' ∧ j.Abreast L' j' := by
  refine Abreast.defineEach (fun i => i.library.forms.size) (fun k p => K.form ⟨k, p.1⟩) ?_ ?_ h hK
    hj hj'
  · intro i p j hdefine
    rw [defineForm_eq_introduce] at hdefine
    obtain ⟨-, -, -, -, hlibrary, -⟩ := introduce_ok hdefine
    rw [hlibrary]
    exact Array.size_push _
  · intro L i i' p j j' h hK hdefine hdefine'
    have hagree : Link.Agree K i.symbols i'.symbols p.1 := by
      rw [defineForm_eq_introduce] at hdefine hdefine'
      exact agree_of_introduce hdefine hdefine'
    obtain ⟨L', hinterns, hdefined⟩ := h.defineForm p.2 p.2 hagree hK
    rw [hdefine, hdefine'] at hdefined
    exact ⟨L', hinterns, hdefined⟩

private theorem Abreast.defineProcedures {procedures : List (String × Arity × NativeProcedure)}
    (h : i.Abreast L i') (hK : ∀ k p, procedures[k]? = some p →
      K.builtin ⟨i.library.procedures.size + k, p.1, p.2.1⟩)
    (hj : Interpreter.defineEach (fun i p => i.defineProcedure p.1 p.2.1 p.2.2) i procedures = .ok j)
    (hj' : Interpreter.defineEach (fun i p => i.defineProcedure p.1 p.2.1 p.2.2) i' procedures =
      .ok j') :
    ∃ L', L.Interns L' ∧ j.Abreast L' j' := by
  refine Abreast.defineEach (fun i => i.library.procedures.size)
    (fun k p => K.builtin ⟨k, p.1, p.2.1⟩) ?_ ?_ h hK hj hj'
  · intro i p j hdefine
    rw [defineProcedure_eq_introduce] at hdefine
    obtain ⟨-, -, -, -, hlibrary, -⟩ := introduce_ok hdefine
    rw [hlibrary]
    exact Array.size_push _
  · intro L i i' p j j' h hK hdefine hdefine'
    have hagree : Link.Agree K i.symbols i'.symbols p.1 := by
      rw [defineProcedure_eq_introduce] at hdefine hdefine'
      exact agree_of_introduce hdefine hdefine'
    obtain ⟨L', hinterns, hdefined⟩ := h.defineProcedure p.2.2 p.2.2 hagree hK
    rw [hdefine, hdefine'] at hdefined
    exact ⟨L', hinterns, hdefined⟩

end Interpreter

/-- Values may refer to the code of the standard library. -/
structure Terms.Standard (K : Terms) : Prop where
  form {k : Nat} {p : String × NativeForm} (h : Standard.forms[k]? = some p) : K.form ⟨k, p.1⟩
  builtin {k : Nat} {p : String × Arity × NativeProcedure} (h : Standard.procedures[k]? = some p) :
    K.builtin ⟨k, p.1, p.2.1⟩

namespace Interpreter

variable {i i' : Interpreter}

theorem abreast_build (hK : K.Standard) {config : Config} (ht : L.Reads t t')
    (hempty : L.closures = 0) (hi : build config t = .ok i) (hi' : build config t' = .ok i')
    (hnone : K.spare = none := by rfl) : ∃ L', L.Interns L' ∧ i.Abreast L' i' := by
  have hbare := abreast_bare config ht hempty hnone
  unfold build at hi hi'
  dsimp only at hi hi'
  split at hi
  · next hstandard =>
    rw [if_pos hstandard] at hi'
    split at hi
    · next j hforms =>
      split at hi'
      · next j' hforms' =>
        have hnoForms : (bare config t).library.forms.size = 0 := rfl
        have hnoProcedures : j.library.procedures.size = 0 := by
          rw [library_defineForms hforms]
          rfl
        obtain ⟨L₁, hinterns, hj⟩ := hbare.defineForms
          (fun k p hp => by rw [hnoForms, Nat.zero_add]; exact hK.form hp) hforms hforms'
        obtain ⟨L₂, hinterns', hend⟩ := hj.defineProcedures
          (fun k p hp => by rw [hnoProcedures, Nat.zero_add]; exact hK.builtin hp) hi hi'
        exact ⟨L₂, hinterns.trans hinterns', hend⟩
      · simp at hi'
    · simp at hi
  · next hstandard =>
    rw [if_neg hstandard] at hi'
    obtain rfl : bare config t = i := by simpa using hi
    obtain rfl : bare config t' = i' := by simpa using hi'
    exact ⟨L, .refl L, hbare⟩

end Interpreter

/-- Terms without conditions on native code and errors. -/
def Terms.any (strict : Prop) : Terms where
  builtin _ := True
  form _ := True
  error _ := True
  strict := strict
  error_of_not_internal _ := trivial

theorem Terms.standard_any (strict : Prop) : (Terms.any strict).Standard :=
  ⟨fun _ => trivial, fun _ => trivial⟩

namespace Library

/-- All code of the library treats alike values alike. -/
structure Even (K : Terms) (l : Library) : Prop where
  procedures : ∀ body ∈ l.procedures, Procedures.Even K body
  forms : ∀ rule ∈ l.forms, Forms.Even K rule

variable {l : Library}

private theorem even_empty : ({} : Library).Even K := ⟨by simp, by simp⟩

theorem even_standard : Standard.library.Even K := by
  constructor
  · intro body hbody
    obtain ⟨p, hp, rfl⟩ := by simpa only [Standard.library, List.mem_toArray, List.mem_map] using hbody
    exact Standard.even_procedures p hp
  · intro rule hrule
    obtain ⟨p, hp, rfl⟩ := by simpa only [Standard.library, List.mem_toArray, List.mem_map] using hrule
    exact Standard.even_forms p hp

theorem Even.addProcedure (h : l.Even K) (name : String) (arity : Arity) {body : NativeProcedure}
    (hbody : Procedures.Even K body) : (l.addProcedure name arity body).2.Even K := by
  refine ⟨?_, h.forms⟩
  intro other hother
  rcases Array.mem_push.mp hother with hother | rfl
  · exact h.procedures other hother
  · exact hbody

theorem Even.addForm (h : l.Even K) (name : String) {rule : NativeForm}
    (hrule : Forms.Even K rule) : (l.addForm name rule).2.Even K := by
  refine ⟨h.procedures, ?_⟩
  intro other hother
  rcases Array.mem_push.mp hother with hother | rfl
  · exact h.forms other hother
  · exact hrule

theorem Even.alike (h : l.Even K) (herror : ∀ e, K.error e) : l.Alike K l where
  procedure {L b args args'} _ hargs _ := by
    unfold procedure
    rw [Array.getD_eq_getD_getElem?]
    cases hbody : l.procedures[b.id]? with
    | none => exact Native.alike_fail (herror _)
    | some body => exact h.procedures body (Array.mem_of_getElem? hbody) L args args' hargs
  form {L f operands operands'} _ hoperands env := by
    unfold form
    rw [Array.getD_eq_getD_getElem?]
    cases hrule : l.forms[f.id]? with
    | none => exact Native.alike_fail (herror _)
    | some rule => exact h.forms rule (Array.mem_of_getElem? hrule) L operands operands' env hoperands

theorem Even.alike_any {strict : Prop} (h : l.Even (Terms.any strict)) :
    l.Alike (Terms.any strict) l :=
  h.alike fun _ => trivial

end Library

namespace Interpreter

variable {i i' : Interpreter}

theorem even_build {config : Config} (h : build config t = .ok i) : i.library.Even K := by
  rw [library_build h]
  split
  · exact Library.even_standard
  · exact Library.even_empty

theorem build_eq_ok {config : Config} (h : (build config t).toOption = some i) :
    build config t = .ok i := by
  cases hbuild : build config t with
  | ok j => simpa [hbuild, Except.toOption] using h
  | error e => simp [hbuild, Except.toOption] at h

/-- Interpreters with one configuration are alike, whatever the tables they are built over. -/
theorem alike_build {strict : Prop} {config : Config} (ht : t.InOrder) (ht' : t'.InOrder)
    (hstrict : strict → t' = t) (hi : build config t = .ok i) (hi' : build config t' = .ok i') :
    ∃ L : Link (Terms.any strict), i.Alike L i' := by
  obtain ⟨L, -, h⟩ := abreast_build (Terms.standard_any strict)
    (Link.reads_ofTables 0 ht ht' hstrict) rfl hi hi'
  have hlibrary : i'.library = i.library := by rw [library_build hi, library_build hi']
  refine ⟨L, h, ?_⟩
  rw [hlibrary]
  exact (even_build hi).alike_any

end Interpreter
end MiniScheme
