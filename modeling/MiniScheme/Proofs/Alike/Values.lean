import Mathlib.Data.List.Forall2
import Mathlib.Order.Basic
import MiniScheme.Store.Environment
/-! # Alike values and stores

Evaluations that use different symbol tables go through stores that differ in the identities of
symbols and in nothing else. Such stores, and the values in them, are alike. What holds of every state
of one evaluation is a case of this: a store that is alike to itself has no symbols but those of the
table, and its closures can be called.

One of the evaluations may also have made a closure that the other one did without. Closures made later
then have another identity, one further on.

A link says which symbols go together and how many closures there are. Tables and stores only grow, so
links do, and what was alike stays so.
-/
namespace MiniScheme

/-- Whether the error tells of a broken invariant of the evaluator. -/
def EvalError.isInternal (e : EvalError) : Bool :=
  match e.cause with
  | .internal _ => true
  | _ => false

/-- The closure's place once another one has been put in place `k`. -/
def ClosureId.past (c k : ClosureId) : ClosureId :=
  if c.index < k.index then c else ⟨c.index + 1⟩

private theorem ClosureId.index_past_beq (c d k : ClosureId) :
    ((c.past k).index == (d.past k).index) = (c.index == d.index) := by
  unfold past
  split_ifs <;> simp <;> omega

/-! The same with closures in other places. -/

def Value.rename (f : ClosureId → ClosureId) : Value → Value
  | closure c => closure (f c)
  | v => v

def Cell.rename (f : ClosureId → ClosureId) (c : Cell) : Cell := ⟨c.first.rename f, c.rest.rename f⟩

def Frame.rename (f : ClosureId → ClosureId) (e : Frame) : Frame :=
  { e with bindings := e.bindings.map fun b => (b.1, b.2.rename f) }

def Closure.rename (f : ClosureId → ClosureId) (c : Closure) : Closure :=
  { c with body := c.body.map (·.rename f) }

theorem Value.rename_id (v : Value) : v.rename id = v := by cases v <;> rfl

private theorem Cell.rename_id (c : Cell) :
    c.rename id = c := by simp only [rename, Value.rename_id]

private theorem Frame.rename_id (e : Frame) : e.rename id = e := by simp [rename, Value.rename_id]

private theorem Closure.rename_id (c : Closure) :
    c.rename id = c := by simp [rename, Value.rename_id]

/-- A closure that only the second of two stores has. It contains none but older ones. -/
structure Spare where
  id : ClosureId
  content : Closure
  older {c : ClosureId} : .closure c ∈ content.body → c.index < id.index

/-- What is fixed while evaluations are compared: the native procedures and forms that values may
refer to, the errors that may occur, whether symbols have to be equal, whether the counts kept of
evaluation have to be, and a closure that only the second evaluation has made. -/
structure Terms where
  builtin : Builtin → Prop
  form : SpecialForm → Prop
  error : EvalError → Prop
  strict : Prop
  error_of_not_internal {e : EvalError} : e.isInternal = false → error e
  counted : Prop := True
  spare : Option Spare := none

structure Terms.Exact (K : Terms) : Prop where
  strict : K.strict
  counted : K.counted
  spare : K.spare = none

namespace Terms

variable (K : Terms)

/-- The closure of the second store that goes together with one of the first. -/
def closure (c : ClosureId) : ClosureId :=
  match K.spare with
  | some spare => c.past spare.id
  | none => c

/-- The number of closures in the second store if the first has `n`. -/
def count (n : Nat) : Nat :=
  match K.spare with
  | some _ => n + 1
  | none => n

theorem closure_of_none (hK : K.spare = none) : K.closure = id := by
  funext c
  simp only [closure, hK, id_eq]

theorem count_of_none (hK : K.spare = none) (n : Nat) : K.count n = n := by simp only [count, hK]

theorem count_of_some {spare : Spare} (hK : K.spare = some spare) (n : Nat) : K.count n = n + 1 := by
  simp only [count, hK]

theorem count_succ (n : Nat) : K.count (n + 1) = K.count n + 1 := by
  unfold count
  split <;> rfl

theorem index_closure_beq (c d : ClosureId) :
    ((K.closure c).index == (K.closure d).index) = (c.index == d.index) := by
  unfold closure
  split
  · exact ClosureId.index_past_beq c d _
  · rfl

variable {K} {c d : ClosureId} {spare : Spare}

theorem closure_eq_past (hK : K.spare = some spare) (c : ClosureId) :
    K.closure c = c.past spare.id := by
  simp only [closure, hK]

theorem closure_injective (h : K.closure c = K.closure d) : c = d := by
  have hindex := K.index_closure_beq c d
  rw [h, beq_self_eq_true, eq_comm, beq_iff_eq] at hindex
  exact congrArg ClosureId.mk hindex

theorem closure_ne_spare (hK : K.spare = some spare) (c : ClosureId) : K.closure c ≠ spare.id := by
  intro h
  have hindex := congrArg ClosureId.index h
  simp only [closure_eq_past hK, ClosureId.past] at hindex
  split_ifs at hindex with hlt
  · exact absurd hindex (Nat.ne_of_lt hlt)
  · exact absurd hindex (by simp only; omega)

theorem exists_closure (K : Terms) (d : ClosureId) :
    (∃ c, K.closure c = d) ∨ ∃ spare, K.spare = some spare ∧ d = spare.id := by
  unfold closure
  cases K.spare with
  | none => exact .inl ⟨d, rfl⟩
  | some spare =>
    rcases Nat.lt_trichotomy d.index spare.id.index with hlt | heq | hgt
    · exact .inl ⟨d, if_pos hlt⟩
    · exact .inr ⟨spare, rfl, congrArg ClosureId.mk heq⟩
    · refine .inl ⟨⟨d.index - 1⟩, ?_⟩
      refine (if_neg ?_).trans ?_
      · change ¬ d.index - 1 < spare.id.index
        omega
      · exact congrArg ClosureId.mk (show d.index - 1 + 1 = d.index by omega)

end Terms

/-- The symbols that go together, and the number of closures. -/
structure Link (K : Terms) where
  symbol : Symbol → Symbol → Prop
  closures : Nat
  name_eq {x y : Symbol} : symbol x y → y.name = x.name
  same_eq {x y x' y' : Symbol} : symbol x y → symbol x' y' → y.same y' = x.same x'
  eq_of_strict {x y : Symbol} : K.strict → symbol x y → y = x
  spare_le {spare : Spare} : K.spare = some spare → spare.id.index ≤ closures

namespace Link

variable {K : Terms} {L L' L'' : Link K}

instance : Preorder (Link K) where
  le L L' := (∀ x y, L.symbol x y → L'.symbol x y) ∧ L.closures ≤ L'.closures
  le_refl _ := ⟨fun _ _ h => h, Nat.le_refl _⟩
  le_trans _ _ _ h h' := ⟨fun x y hxy => h'.1 x y (h.1 x y hxy), Nat.le_trans h.2 h'.2⟩

theorem symbol_mono (h : L ≤ L') {x y : Symbol} (hxy : L.symbol x y) : L'.symbol x y := h.1 x y hxy

/-- The second link has more closures at most. -/
structure Adds (L L' : Link K) : Prop where
  symbol : L'.symbol = L.symbol
  closures : L.closures ≤ L'.closures

theorem Adds.refl (L : Link K) : L.Adds L := ⟨rfl, Nat.le_refl _⟩

theorem Adds.trans (h : L.Adds L') (h' : L'.Adds L'') : L.Adds L'' :=
  ⟨h'.symbol.trans h.symbol, Nat.le_trans h.closures h'.closures⟩

theorem Adds.le (h : L.Adds L') : L ≤ L' :=
  ⟨fun x y hxy => by rw [h.symbol]; exact hxy, h.closures⟩

/-- The second link has more symbols at most. -/
structure Interns (L L' : Link K) : Prop where
  symbol {x y : Symbol} : L.symbol x y → L'.symbol x y
  closures : L'.closures = L.closures

theorem Interns.refl (L : Link K) : L.Interns L := ⟨id, rfl⟩

theorem Interns.trans (h : L.Interns L') (h' : L'.Interns L'') : L.Interns L'' :=
  ⟨fun hxy => h'.symbol (h.symbol hxy), h'.closures.trans h.closures⟩

theorem Interns.le (h : L.Interns L') : L ≤ L' := ⟨fun _ _ => h.symbol, Nat.le_of_eq h.closures.symm⟩

def next (L : Link K) : Link K where
  symbol := L.symbol
  closures := L.closures + 1
  name_eq := L.name_eq
  same_eq := L.same_eq
  eq_of_strict := L.eq_of_strict
  spare_le h := Nat.le_succ_of_le (L.spare_le h)

theorem adds_next (L : Link K) : L.Adds L.next := ⟨rfl, Nat.le_succ _⟩

theorem closure_next (L : Link K) : K.closure ⟨L.closures⟩ = ⟨K.count L.closures⟩ := by
  have hle := @L.spare_le
  unfold Terms.closure Terms.count
  split
  · next spare hspare => exact if_neg (Nat.not_lt.mpr (hle hspare))
  · rfl

theorem closure_lt_iff (L : Link K) {c : ClosureId} :
    (K.closure c).index < K.count L.closures ↔ c.index < L.closures := by
  have hle := @L.spare_le
  unfold Terms.closure Terms.count
  split
  · next spare hspare =>
    have hspare := hle hspare
    by_cases hc : c.index < spare.id.index
    · simp only [ClosureId.past, if_pos hc]
      omega
    · simp only [ClosureId.past, if_neg hc]
      omega
  · rfl

end Link

def Pointwise {α β : Type} (R : α → β → Prop) (a : Array α) (b : Array β) : Prop :=
  List.Forall₂ R a.toList b.toList

namespace Pointwise

variable {α β : Type} {R R' : α → β → Prop} {a : Array α} {b : Array β}

theorem size_eq (h : Pointwise R a b) : b.size = a.size := by
  simpa using (List.Forall₂.length_eq h).symm

theorem mono (h : Pointwise R a b) (hR : ∀ x y, R x y → R' x y) : Pointwise R' a b :=
  List.Forall₂.imp hR h

theorem push (h : Pointwise R a b) {x : α} {y : β} (hxy : R x y) :
    Pointwise R (a.push x) (b.push y) := by
  unfold Pointwise
  rw [Array.toList_push, Array.toList_push]
  exact List.rel_append h (.cons hxy .nil)

theorem getD (h : Pointwise R a b) {d : α} {d' : β} (hd : R d d') (k : Nat) :
    R (a.getD k d) (b.getD k d') := by
  rw [Array.getD_eq_getD_getElem?, Array.getD_eq_getD_getElem?, ← Array.getElem?_toList,
    ← Array.getElem?_toList]
  unfold Pointwise at h
  generalize a.toList = xs at h
  generalize b.toList = ys at h
  induction h generalizing k with
  | nil => exact hd
  | cons hxy _ ih =>
    cases k with
    | zero => exact hxy
    | succ k => exact ih k

theorem modify (h : Pointwise R a b) {f : α → α} {g : β → β} (hfg : ∀ x y, R x y → R (f x) (g y))
    (k : Nat) : Pointwise R (a.modify k f) (b.modify k g) := by
  unfold Pointwise at h ⊢
  rw [Array.toList_modify, Array.toList_modify]
  generalize a.toList = xs at h
  generalize b.toList = ys at h
  induction h generalizing k with
  | nil => simp
  | cons hxy htail ih =>
    cases k with
    | zero => simpa using ⟨hfg _ _ hxy, htail⟩
    | succ k => simpa using ⟨hxy, ih k⟩

theorem eq_map (h : Pointwise R a b) {f : α → β} (hf : ∀ x y, R x y → y = f x) : b = a.map f := by
  rw [← Array.toList_inj, Array.toList_map]
  unfold Pointwise at h
  generalize a.toList = xs at h
  generalize b.toList = ys at h
  induction h with
  | nil => rfl
  | cons hxy _ ih => rw [List.map_cons, hf _ _ hxy, ih]

theorem self_of_mem {R : α → α → Prop} (h : Pointwise R a a) {x : α} (hx : x ∈ a) : R x x :=
  List.forall₂_same.mp h x (Array.mem_toList_iff.mpr hx)

end Pointwise

variable {K : Terms} {L L' : Link K}

namespace Value

/-- A value other than a symbol that may occur. -/
def Fits (L : Link K) : Value → Prop
  | symbol _ => False
  | builtin b => K.builtin b
  | form f => K.form f
  | closure c => c.index < L.closures
  | _ => True

/-- Symbols or closures that go together, or the same value. -/
inductive Alike (L : Link K) : Value → Value → Prop
  | symbol {x y : Symbol} (h : L.symbol x y) : Alike L (symbol x) (symbol y)
  | same {v : Value} (h : v.Fits L) : Alike L v (v.rename K.closure)

variable {v w v' w' : Value}

theorem Fits.mono (hle : L ≤ L') (h : v.Fits L) : v.Fits L' := by
  cases v with
  | closure c => exact Nat.lt_of_lt_of_le h hle.2
  | _ => exact h

theorem Alike.mono (hle : L ≤ L') (h : v.Alike L w) : v.Alike L' w := by
  cases h with
  | symbol h => exact .symbol (hle.1 _ _ h)
  | same h => exact .same (h.mono hle)

theorem Alike.eq_of_strict (hK : K.strict) (h : v.Alike L w) :
    w = v.rename K.closure := by
  cases h with
  | symbol h => rw [L.eq_of_strict hK h]; rfl
  | same h => rfl

theorem alike_self (h : v.Fits L) (hv : v.rename K.closure = v) : v.Alike L v := by
  have halike := Alike.same h
  rwa [hv] at halike

theorem Alike.eq_pair {c : CellId} (h : (pair c).Alike L w) : w = pair c := by
  cases h
  rfl

theorem Alike.pair_eq {c : CellId} (h : v.Alike L (pair c)) : v = pair c := by
  generalize hw : pair c = w at h
  cases h with
  | symbol h => simp at hw
  | same h =>
    cases v with
    | pair d => rfl
    | _ => simp [rename] at hw

/-- What does not depend on which symbol or which closure it is. -/
theorem Alike.congr {α : Type} {f : Value → α} (h : v.Alike L w)
    (hsymbol : ∀ x y, f (.symbol x) = f (.symbol y))
    (hclosure : ∀ c d, f (.closure c) = f (.closure d)) : f w = f v := by
  cases h with
  | symbol => exact hsymbol _ _
  | same =>
    cases v with
    | closure c => exact hclosure _ _
    | _ => rfl

theorem Alike.isTrue_eq (h : v.Alike L w) : w.isTrue = v.isTrue :=
  h.congr (fun _ _ => rfl) fun _ _ => rfl

theorem Alike.isPair_eq (h : v.Alike L w) : w.isPair = v.isPair :=
  h.congr (fun _ _ => rfl) fun _ _ => rfl

theorem Alike.isNull_eq (h : v.Alike L w) : w.isNull = v.isNull :=
  h.congr (fun _ _ => rfl) fun _ _ => rfl

theorem Alike.typeName_eq (h : v.Alike L w) : w.typeName = v.typeName :=
  h.congr (fun _ _ => rfl) fun _ _ => rfl

theorem Alike.same_eq (h : v.Alike L v') (h' : w.Alike L w') : v'.same w' = v.same w := by
  cases h with
  | symbol h =>
    cases h' with
    | symbol h' => exact L.same_eq h h'
    | @same w hw =>
      cases w with
      | symbol y => exact hw.elim
      | _ => rfl
  | @same v hv =>
    cases h' with
    | symbol h' =>
      cases v with
      | symbol x => exact hv.elim
      | _ => rfl
    | @same w hw =>
      cases v with
      | closure c =>
        cases w with
        | closure d => exact K.index_closure_beq c d
        | _ => rfl
      | _ => cases w <;> rfl

end Value

abbrev Values (L : Link K) : List Value → List Value → Prop := List.Forall₂ (Value.Alike L)

theorem Values.mono (hle : L ≤ L') {vs ws : List Value} (h : Values L vs ws) : Values L' vs ws :=
  h.imp fun _ _ => .mono hle

theorem Values.tail {vs ws : List Value} (h : Values L vs ws) : Values L vs.tail ws.tail := by
  cases h with
  | nil => exact .nil
  | cons _ h => exact h

theorem Values.isEmpty_eq {vs ws : List Value} (h : Values L vs ws) : ws.isEmpty = vs.isEmpty := by
  cases h <;> rfl

private theorem Values.eq_of_strict (hK : K.strict) {vs ws : List Value} (h : Values L vs ws) :
    ws = vs.map (·.rename K.closure) := by
  induction h with
  | nil => rfl
  | cons hv _ ih => rw [List.map_cons, hv.eq_of_strict hK, ih]

structure Cell.Alike (L : Link K) (c c' : Cell) : Prop where
  first : c.first.Alike L c'.first
  rest : c.rest.Alike L c'.rest

structure Binding.Alike (L : Link K) (b b' : Symbol × Value) : Prop where
  name : L.symbol b.1 b'.1
  value : b.2.Alike L b'.2

structure Frame.Alike (L : Link K) (f f' : Frame) : Prop where
  parent : f'.parent = f.parent
  bindings : List.Forall₂ (Binding.Alike L) f.bindings f'.bindings

namespace Formals

def symbols : Formals → List Symbol
  | fixed names => names
  | variadic names rest => names ++ [rest]

inductive Alike (L : Link K) : Formals → Formals → Prop
  | fixed {names names' : List Symbol} (h : List.Forall₂ L.symbol names names') :
    Alike L (fixed names) (fixed names')
  | variadic {names names' : List Symbol} {rest rest' : Symbol}
    (h : List.Forall₂ L.symbol names names') (hrest : L.symbol rest rest') :
    Alike L (variadic names rest) (variadic names' rest')

theorem Alike.symbol_of_mem {f : Formals} (h : f.Alike L f) : ∀ x ∈ f.symbols, L.symbol x x := by
  intro x hx
  cases h with
  | fixed h => exact List.forall₂_same.mp h x hx
  | variadic h hrest =>
    rcases List.mem_append.mp hx with hx | hx
    · exact List.forall₂_same.mp h x hx
    · obtain rfl := List.mem_singleton.mp hx
      exact hrest

def Distinct (formals : Formals) : Prop :=
  formals.symbols.Pairwise fun x y => x.same y = false

end Formals

/-- Closures that differ in symbols only and can be called. -/
structure Closure.Alike (L : Link K) (c c' : Closure) : Prop where
  name : c'.name = c.name
  formals : c.formals.Alike L c'.formals
  distinct : c.formals.Distinct
  body : Values L c.body c'.body
  nonempty : c.body ≠ []
  env : c'.env = c.env

structure Store.Alike (L : Link K) (s s' : Store) : Prop where
  cells : Pointwise (Cell.Alike L) s.cells s'.cells
  frames : Pointwise (Frame.Alike L) s.frames s'.frames
  closure {c : ClosureId} (hc : c.index < L.closures) :
    (s.closure c).Alike L (s'.closure (K.closure c))
  count : s.closures.size = L.closures
  count_right : s'.closures.size = K.count L.closures
  spare {spare : Spare} (hK : K.spare = some spare) : s'.closure spare.id = spare.content

section Mono

variable (hle : L ≤ L')

include hle

theorem Cell.Alike.mono {c c' : Cell} (h : c.Alike L c') : c.Alike L' c' :=
  ⟨h.first.mono hle, h.rest.mono hle⟩

theorem Binding.Alike.mono {b b' : Symbol × Value} (h : Binding.Alike L b b') :
    Binding.Alike L' b b' :=
  ⟨hle.1 _ _ h.name, h.value.mono hle⟩

theorem Frame.Alike.mono {f f' : Frame} (h : f.Alike L f') : f.Alike L' f' :=
  ⟨h.parent, h.bindings.imp fun _ _ => .mono hle⟩

theorem Formals.Alike.mono {f f' : Formals} (h : f.Alike L f') : f.Alike L' f' := by
  cases h with
  | fixed h => exact .fixed (h.imp hle.1)
  | variadic h hrest => exact .variadic (h.imp hle.1) (hle.1 _ _ hrest)

theorem Closure.Alike.mono {c c' : Closure} (h : c.Alike L c') : c.Alike L' c' :=
  ⟨h.name, h.formals.mono hle, h.distinct, h.body.mono hle, h.nonempty, h.env⟩

end Mono

theorem Store.Alike.interns (hinterns : L.Interns L') {s s' : Store} (h : s.Alike L s') :
    s.Alike L' s' where
  cells := h.cells.mono fun _ _ => .mono hinterns.le
  frames := h.frames.mono fun _ _ => .mono hinterns.le
  closure hc := (h.closure (hinterns.closures ▸ hc)).mono hinterns.le
  count := h.count.trans hinterns.closures.symm
  count_right := h.count_right.trans (congrArg K.count hinterns.closures.symm)
  spare := h.spare

theorem Store.Alike.spare_eq_none {s : Store} (h : s.Alike L s) : K.spare = none := by
  have hcount := h.count_right
  rw [h.count] at hcount
  cases hK : K.spare with
  | none => rfl
  | some spare =>
    rw [K.count_of_some hK] at hcount
    omega

theorem Store.Alike.closure_self {s : Store} (h : s.Alike L s) {c : Closure}
    (hc : c ∈ s.closures) : c.Alike L c := by
  obtain ⟨i, hi, rfl⟩ := Array.mem_iff_getElem.mp hc
  have hclosure := h.closure (c := ⟨i⟩) (h.count ▸ hi)
  simpa [K.closure_of_none h.spare_eq_none, Store.closure, Array.getD, hi] using hclosure

section Strict

variable (hK : K.strict)

include hK

private theorem Cell.Alike.eq_of_strict {c c' : Cell} (h : c.Alike L c') :
    c' = c.rename K.closure := by
  obtain ⟨first, rest⟩ := c
  obtain ⟨first', rest'⟩ := c'
  rw [show first' = first.rename K.closure from h.first.eq_of_strict hK,
    show rest' = rest.rename K.closure from h.rest.eq_of_strict hK]
  rfl

private theorem Frame.Alike.eq_of_strict {f f' : Frame} (h : f.Alike L f') :
    f' = f.rename K.closure := by
  obtain ⟨bindings, parent⟩ := f
  obtain ⟨bindings', parent'⟩ := f'
  obtain rfl : parent' = parent := h.parent
  have hbindings : bindings' = bindings.map fun b => (b.1, b.2.rename K.closure) := by
    have hall : List.Forall₂ (Binding.Alike L) bindings bindings' := h.bindings
    clear h
    induction hall with
    | nil => rfl
    | cons hb _ ih =>
      rw [List.map_cons, ← ih, ← L.eq_of_strict hK hb.name, ← hb.value.eq_of_strict hK]
  rw [hbindings]
  rfl

private theorem Formals.Alike.eq_of_strict {f f' : Formals} (h : f.Alike L f') : f' = f := by
  have hnames {names names' : List Symbol} (h : List.Forall₂ L.symbol names names') :
      names = names' := by
    rw [← List.forall₂_eq_eq_eq]
    exact h.imp fun x y hxy => (L.eq_of_strict hK hxy).symm
  cases h with
  | fixed h => rw [hnames h]
  | variadic h hrest => rw [hnames h, L.eq_of_strict hK hrest]

theorem Closure.Alike.eq_of_strict {c c' : Closure} (h : c.Alike L c') :
    c' = c.rename K.closure := by
  obtain ⟨name, formals, body, env⟩ := c
  obtain ⟨name', formals', body', env'⟩ := c'
  rw [show name' = name from h.name, show env' = env from h.env,
    show formals' = formals from h.formals.eq_of_strict hK,
    show body' = body.map _ from h.body.eq_of_strict hK]
  rfl

theorem Store.Alike.cells_of_strict {s s' : Store} (h : s.Alike L s') :
    s'.cells = s.cells.map (·.rename K.closure) :=
  h.cells.eq_map fun _ _ hc => hc.eq_of_strict hK

theorem Store.Alike.frames_of_strict {s s' : Store} (h : s.Alike L s') :
    s'.frames = s.frames.map (·.rename K.closure) :=
  h.frames.eq_map fun _ _ hf => hf.eq_of_strict hK

end Strict

section Exact

variable (hK : K.Exact)

include hK

theorem Value.Alike.eq_of_exact {v w : Value} (h : v.Alike L w) : w = v := by
  rw [h.eq_of_strict hK.strict, K.closure_of_none hK.spare, Value.rename_id]

theorem Values.eq_of_exact {vs ws : List Value} (h : Values L vs ws) : ws = vs := by
  simp only [h.eq_of_strict hK.strict, K.closure_of_none hK.spare, Value.rename_id, List.map_id']

theorem Store.Alike.eq_of_exact {s s' : Store} (h : s.Alike L s') : s' = s := by
  have hcells := h.cells_of_strict hK.strict
  have hframes := h.frames_of_strict hK.strict
  simp only [K.closure_of_none hK.spare, Cell.rename_id, Frame.rename_id, Array.map_id']
    at hcells hframes
  have hclosures : s'.closures = s.closures := by
    apply Array.ext
    · rw [h.count_right, h.count, K.count_of_none hK.spare]
    · intro i hi' hi
      have hclosure := (h.closure (c := ⟨i⟩) (h.count ▸ hi)).eq_of_strict hK.strict
      simpa [K.closure_of_none hK.spare, Closure.rename_id, Store.closure, Array.getD, hi, hi']
        using hclosure
  obtain ⟨cells, frames, closures⟩ := s
  obtain ⟨cells', frames', closures'⟩ := s'
  rw [show cells' = cells from hcells, show frames' = frames from hframes,
    show closures' = closures from hclosures]

end Exact

end MiniScheme
