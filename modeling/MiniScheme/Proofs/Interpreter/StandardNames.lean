import MiniScheme.Proofs.Alike.Building
import MiniScheme.Proofs.Store.Environments
/-! # What standard names mean

Building an interpreter defines one name after the other in the outermost frame. No name comes twice,
so every definition stands when the interpreter is built: seen from the outermost frame the symbol of
each standard name has the value that refers to its code.
-/
namespace MiniScheme

namespace Interpreter

variable {limit : Option Nat} {i j : Interpreter} {name : String} {add : Library → Value × Library}

/-- The interpreter has this depth limit, its table is in order, its frames are inside older ones,
the outermost frame is there, and nothing is under way. -/
structure Grounded (i : Interpreter) (limit : Option Nat) : Prop where
  symbols : i.symbols.InOrder
  rooted : i.machine.store.Rooted
  global : i.global.index < i.machine.store.frames.size
  depth : i.machine.depth = 0
  maxDepth : i.maxDepth = limit

/-- The symbol of the name has this value in the outermost frame. -/
def Defines (i : Interpreter) (name : String) (v : Value) : Prop :=
  ∃ x, i.symbols.lookup name = some x ∧ i.machine.store.lookup i.global x = .ok v

theorem Defines.lookup {v : Value} {t : SymbolTable} {x : Symbol} (h : i.Defines name v)
    (hgrows : i.symbols.Grows t) (hx : t.lookup name = some x) :
    i.machine.store.lookup i.global x = .ok v := by
  obtain ⟨y, hy, hvalue⟩ := h
  obtain rfl : y = x := Option.some.inj ((hgrows.keeps name y hy).symm.trans hx)
  exact hvalue

theorem Grounded.introduce (h : i.Grounded limit) (hj : i.introduce name add = (.ok (), j)) :
    j.Grounded limit ∧ j.Defines name (add i.library).1 ∧
      ∀ other v, other ≠ name → i.Defines other v → j.Defines other v := by
  obtain ⟨x, hintern, hglobal, hstore, -, hdepth, hlimit⟩ := introduce_ok hj
  have hgrows := h.symbols.grows_of_intern hintern
  have hx := h.symbols.lookup_of_intern hintern
  refine ⟨⟨hgrows.inOrder, ?_, ?_, hdepth.trans h.depth, hlimit.trans h.maxDepth⟩, ⟨x, hx, ?_⟩, ?_⟩
  · rw [hstore]
    exact h.rooted.of_parents (Store.parent_define _ _ _ _)
  · rw [hstore, hglobal, Store.size_define]
    exact h.global
  · rw [hstore, hglobal]
    exact Store.lookup_define_self _ h.global _ _
  · rintro other v hne ⟨y, hy, hvalue⟩
    have hy := hgrows.keeps other y hy
    have hdiffer : x.same y = false := by
      rw [Bool.eq_false_iff]
      intro hsame
      exact hne ((hgrows.inOrder.same_iff hx hy).mp hsame).symm
    refine ⟨y, hy, ?_⟩
    rw [hstore, hglobal, Store.lookup_define_of_ne h.global hdiffer, hvalue]

theorem Grounded.defineEach {α : Type} {items : List α}
    {define : Interpreter → α → Except EvalError Unit × Interpreter} (nameOf : α → String)
    (add : α → Library → Value × Library) (place : Library → Nat) (value : Nat → α → Value)
    (hdefine : ∀ i a, define i a = i.introduce (nameOf a) (add a))
    (hvalue : ∀ l a, (add a l).1 = value (place l) a)
    (hplace : ∀ l a, place (add a l).2 = place l + 1)
    (hnames : (items.map nameOf).Nodup) (h : i.Grounded limit)
    (hj : Interpreter.defineEach define i items = .ok j) :
    j.Grounded limit ∧
      (∀ k a, items[k]? = some a → j.Defines (nameOf a) (value (place i.library + k) a)) ∧
      ∀ other v, other ∉ items.map nameOf → i.Defines other v → j.Defines other v := by
  induction items generalizing i with
  | nil =>
    obtain rfl : i = j := by simpa [Interpreter.defineEach] using hj
    exact ⟨h, by simp, fun _ _ _ => id⟩
  | cons a items ih =>
    rw [Interpreter.defineEach] at hj
    split at hj
    · next k hk =>
      rw [hdefine] at hk
      obtain ⟨hgrounded, hdefines, hkeeps⟩ := h.introduce hk
      obtain ⟨-, -, -, -, hlibrary, -⟩ := introduce_ok hk
      obtain ⟨hfresh, hnames⟩ := List.nodup_cons.mp hnames
      obtain ⟨hend, hitems, hothers⟩ := ih hnames hgrounded hj
      refine ⟨hend, ?_, ?_⟩
      · intro n b hb
        cases n with
        | zero =>
          obtain rfl : a = b := by simpa using hb
          rw [Nat.add_zero, ← hvalue]
          exact hothers _ _ hfresh hdefines
        | succ n =>
          have hplaced := hitems n b (by simpa using hb)
          rw [hlibrary, hplace] at hplaced
          rwa [show place i.library + (n + 1) = place i.library + 1 + n by omega]
      · intro other v hnot hother
        simp only [List.map_cons, List.mem_cons, not_or] at hnot
        exact hothers other v hnot.2 (hkeeps other v hnot.1 hother)
    · simp at hj

private theorem grounded_bare (config : Config) {t : SymbolTable} (ht : t.InOrder) :
    (bare config t).Grounded config.maxDepth where
  symbols := ht
  rooted := Store.Framed.empty.new.rooted
  global := Nat.zero_lt_one
  depth := rfl
  maxDepth := rfl

/-- Every standard name has its standard meaning once an interpreter is built. -/
theorem defines_build {config : Config} {t : SymbolTable} (hstandard : config.standard = true)
    (ht : t.InOrder) (h : build config t = .ok i) :
    i.Grounded config.maxDepth ∧
      (∀ p ∈ Standard.forms, ∃ f, i.Defines p.1 (.form f) ∧ i.library.form f = p.2) ∧
      ∀ p ∈ Standard.procedures, ∃ b, i.Defines p.1 (.builtin b) ∧ b.arity = p.2.1 ∧
        i.library.procedure b = p.2.2 := by
  have hlibrary : i.library = Standard.library := by
    rw [library_build h, if_pos hstandard]
  have hnames : (Standard.forms.map (·.1) ++ Standard.procedures.map (·.1)).Nodup := by decide
  obtain ⟨hformNames, hprocedureNames, hapart⟩ := List.nodup_append.mp hnames
  unfold build at h
  dsimp only at h
  rw [if_pos hstandard] at h
  split at h
  · next j hforms =>
    obtain ⟨hj, hdefined, -⟩ := (grounded_bare config ht).defineEach
      (fun p : String × NativeForm => p.1) (fun p l => l.addForm p.1 p.2) (·.forms.size)
      (fun k p => .form ⟨k, p.1⟩) (fun _ _ => rfl) (fun _ _ => rfl) (fun _ _ => Array.size_push _)
      hformNames hforms
    obtain ⟨hi, hprocedures, hkept⟩ := hj.defineEach
      (fun p : String × Arity × NativeProcedure => p.1)
      (fun p l => l.addProcedure p.1 p.2.1 p.2.2) (·.procedures.size)
      (fun k p => .builtin ⟨k, p.1, p.2.1⟩) (fun _ _ => rfl) (fun _ _ => rfl)
      (fun _ _ => Array.size_push _) hprocedureNames h
    have hnone : j.library.procedures.size = 0 := by
      rw [library_defineForms hforms]
      rfl
    refine ⟨hi, ?_, ?_⟩
    · intro p hp
      obtain ⟨k, hk⟩ := List.mem_iff_getElem?.mp hp
      have hdefines := hdefined k p hk
      rw [show (bare config t).library.forms.size = 0 from rfl, Nat.zero_add] at hdefines
      refine ⟨⟨k, p.1⟩, hkept _ _ (fun hmem => ?_) hdefines, ?_⟩
      · exact hapart p.1 (List.mem_map_of_mem hp) p.1 hmem rfl
      · rw [hlibrary]
        simp [Library.form, Standard.library, hk]
    · intro p hp
      obtain ⟨k, hk⟩ := List.mem_iff_getElem?.mp hp
      have hdefines := hprocedures k p hk
      rw [hnone, Nat.zero_add] at hdefines
      refine ⟨⟨k, p.1, p.2.1⟩, hdefines, rfl, ?_⟩
      rw [hlibrary]
      simp [Library.procedure, Standard.library, hk]
  · simp at h

end Interpreter
end MiniScheme
