import MiniScheme.Proofs.Alike.Building
import MiniScheme.Proofs.Machine.Underneath
/-! # One closure more

A machine is in order if whatever is in it is known: symbols are those of the table, closures have been
made and can be called. Evaluation keeps machines in order. Such a machine is alike to the one in which
one closure more has been made, which nothing refers to; alike machines in which the closure is there
differ by it, and by the places of the closures made after it.
-/
namespace MiniScheme

/-- Nothing may differ but the counts and a closure. -/
def Terms.beside (spare : Spare) : Terms :=
  { Terms.any True with counted := False, spare := some spare }

namespace Machine

/-- The machine's own symbols and closures, and all values that are neither. -/
def Knows (m : Machine) : Value → Prop
  | .symbol x => m.symbols.lookup x.name = some x
  | .closure c => c.index < m.store.closures.size
  | _ => True

instance (m : Machine) : DecidablePred m.Knows
  | .symbol x => inferInstanceAs (Decidable (m.symbols.lookup x.name = some x))
  | .closure c => inferInstanceAs (Decidable (c.index < m.store.closures.size))
  | .nil | .bool _ | .int _ | .float _ | .str _ | .pair _ | .builtin _ | .form _ | .unspecified =>
    isTrue trivial

/-- Whatever is in the machine and among the values `held` is known, and closures can be called. -/
structure InOrder (m : Machine) (held : List Value) : Prop where
  symbols : m.symbols.InOrder
  cells : ∀ c ∈ m.store.cells, m.Knows c.first ∧ m.Knows c.rest
  frames : ∀ f ∈ m.store.frames, ∀ b ∈ f.bindings, m.Knows (.symbol b.1) ∧ m.Knows b.2
  parameters : ∀ c ∈ m.store.closures, c.formals.Distinct ∧
    ∀ x ∈ c.formals.symbols, m.Knows (.symbol x)
  bodies : ∀ c ∈ m.store.closures, c.body ≠ [] ∧ ∀ v ∈ c.body, m.Knows v
  calls : ∀ v ∈ m.calls.values, m.Knows v
  held : ∀ v ∈ held, m.Knows v

section Self

variable {K : Terms} {L : Link K} {m : Machine}

private theorem Alike.knows {m' : Machine} (h : m.Alike L m') {v w : Value} (hv : v.Alike L w) :
    m.Knows v := by
  cases hv with
  | symbol hx =>
    obtain ⟨name, hleft, -⟩ := h.symbols.symbol_iff.mp hx
    rw [Knows, h.symbols.left.name_of_lookup hleft]
    exact hleft
  | same hfits =>
    cases v with
    | closure c =>
      rw [Knows, h.store.count]
      exact hfits
    | symbol x => exact hfits.elim
    | _ => trivial

/-- A machine that is alike to itself is in order. -/
theorem Alike.inOrder (h : m.Alike L m) {held : List Value} (hheld : Values L held held) :
    m.InOrder held where
  symbols := h.symbols.left
  cells c hc := by
    have hself := h.store.cells.self_of_mem hc
    exact ⟨h.knows hself.first, h.knows hself.rest⟩
  frames f hf b hb := by
    have hself := List.forall₂_same.mp (h.store.frames.self_of_mem hf).bindings b hb
    exact ⟨h.knows (.symbol hself.name), h.knows hself.value⟩
  parameters c hc := by
    have hself := h.store.closure_self hc
    exact ⟨hself.distinct, fun x hx => h.knows (.symbol (hself.formals.symbol_of_mem x hx))⟩
  bodies c hc := by
    have hself := h.store.closure_self hc
    exact ⟨hself.nonempty, fun v hv => h.knows (List.forall₂_same.mp hself.body v hv)⟩
  calls v hv := h.knows (h.calls.self_of_mem hv)
  held v hv := h.knows (List.forall₂_same.mp hheld v hv)

end Self

end Machine

theorem State.Alike.inOrder {K : Terms} {L : Link K} {s : State} (h : s.Alike L s) {caller : Held}
    (hcaller : caller.Alike L caller) :
    s.machine.InOrder (caller.append (.ofWaiting s.waiting)).values := by
  have hwaiting : Values L (s.waiting.flatMap fun w => w.held.values)
      (s.waiting.flatMap fun w => w.held.values) := by
    refine List.forall₂_same.mpr fun v hv => ?_
    obtain ⟨w, hw, hv⟩ := List.mem_flatMap.mp hv
    exact List.forall₂_same.mp (List.forall₂_same.mp h.waiting w hw).held.values v hv
  exact h.machine.inOrder (List.rel_append hcaller.values hwaiting)

/-- So every state that an interpreter passes through is in order. -/
theorem Interpreter.Alike.inOrder {K : Terms} {L : Link K} {i : Interpreter} (h : i.Alike L i)
    (hK : K.strict) {caller : Held} (hcaller : caller.Alike L caller) {v : Value} (hv : v.Alike L v)
    (env : FrameId) (n : Nat) :
    (i.evaluating caller v env n).machine.InOrder
      ((i.setting caller).bearing (i.evaluating caller v env n).waiting).caller.values := by
  obtain ⟨L', hle, hs⟩ := h.evaluating hcaller hv env n (.inl hK)
  exact hs.inOrder (hcaller.mono hle)

private theorem Pointwise.of_mem {α : Type} {R : α → α → Prop} {a : Array α} (h : ∀ x ∈ a, R x x) :
    Pointwise R a a :=
  List.forall₂_same.mpr fun x hx => h x (Array.mem_toList_iff.mp hx)

/-- A closure over what the machine knows, to come after all its closures. -/
def Machine.spare (m : Machine) (content : Closure) (hbody : ∀ v ∈ content.body, m.Knows v) :
    Spare where
  id := ⟨m.store.closures.size⟩
  content := content
  older hc := hbody _ hc

namespace Machine

variable {m : Machine} {held : List Value} {content : Closure}
  (hbody : ∀ v ∈ content.body, m.Knows v)

private theorem closure_beside {c : ClosureId} (hc : c.index < m.store.closures.size) :
    (Terms.beside (m.spare content hbody)).closure c = c := by
  rw [Terms.closure_eq_past rfl]
  exact if_pos hc

namespace InOrder

variable (h : m.InOrder held)

include h

/-- The link of a machine's own symbols and closures. -/
def link : Link (Terms.beside (m.spare content hbody)) :=
  Link.ofTables _ m.store.closures.size h.symbols h.symbols (fun _ => rfl)
    (by rintro _ ⟨⟩; exact Nat.le_refl _)

theorem symbol {x : Symbol} (hx : m.Knows (.symbol x)) : (h.link hbody).symbol x x :=
  ⟨x.name, hx, hx⟩

theorem alike {v : Value} (hv : m.Knows v) : v.Alike (h.link hbody) v := by
  cases v with
  | symbol x => exact .symbol (h.symbol hbody hv)
  | closure c =>
    refine Value.alike_self (v := .closure c) hv ?_
    exact congrArg Value.closure (closure_beside hbody hv)
  | _ => exact Value.alike_self trivial rfl

theorem values {vs : List Value} (hvs : ∀ v ∈ vs, m.Knows v) : Values (h.link hbody) vs vs :=
  List.forall₂_same.mpr fun v hv => h.alike hbody (hvs v hv)

private theorem closure_alike {c : Closure} (hc : c ∈ m.store.closures) :
    c.Alike (h.link hbody) c := by
  obtain ⟨hdistinct, hparameters⟩ := h.parameters c hc
  obtain ⟨hne, hknown⟩ := h.bodies c hc
  refine ⟨rfl, ?_, hdistinct, h.values hbody hknown, hne, rfl⟩
  cases hformals : c.formals with
  | fixed names =>
    refine .fixed (List.forall₂_same.mpr fun x hx => h.symbol hbody (hparameters x ?_))
    rw [hformals]
    exact hx
  | variadic names rest =>
    have hsymbol {x : Symbol} (hx : x ∈ names ++ [rest]) : (h.link hbody).symbol x x :=
      h.symbol hbody (hparameters x (by rw [hformals]; exact hx))
    refine .variadic (List.forall₂_same.mpr fun x hx => hsymbol ?_) (hsymbol ?_)
    · exact List.mem_append_left _ hx
    · exact List.mem_append_right _ (List.mem_singleton_self rest)

/-- The store of a machine in order is alike to the one with a closure more. -/
theorem store : m.store.Alike (h.link hbody) (m.store.newClosure content).2 where
  cells := .of_mem fun c hc => ⟨h.alike hbody (h.cells c hc).1, h.alike hbody (h.cells c hc).2⟩
  frames := .of_mem fun f hf => ⟨rfl, List.forall₂_same.mpr fun b hb =>
    ⟨h.symbol hbody (h.frames f hf b hb).1, h.alike hbody (h.frames f hf b hb).2⟩⟩
  closure {c} hc := by
    have hlt : c.index < m.store.closures.size := hc
    have hmem : m.store.closure c ∈ m.store.closures := by
      rw [Store.closure, Array.getD_eq_getD_getElem?, Array.getElem?_eq_getElem hlt]
      exact Array.getElem_mem hlt
    rw [closure_beside hbody hlt, Store.closure_newClosure, if_neg (Nat.ne_of_lt hlt)]
    exact h.closure_alike hbody hmem
  count := rfl
  count_right := Array.size_push ..
  spare := by
    rintro _ ⟨⟩
    rw [Store.closure_newClosure]
    exact if_pos rfl

theorem machine {m₁ m₂ : Machine} (heffects : m.SameEffects m₁) (hstack : m.SameStack m₁)
    (hstore : m₂.store = (m.store.newClosure content).2) (hsymbols : m₂.symbols = m.symbols)
    (houtput : m₂.output = m.output) (hstack' : m.SameStack m₂) :
    m₁.Alike (h.link hbody) m₂ where
  store := by
    rw [heffects.store, hstore]
    exact h.store hbody
  symbols := by
    rw [heffects.symbols, hsymbols]
    exact Link.reads_ofTables _ _ _ _ _
  calls := by
    rw [hstack.1, hstack'.1]
    exact .of_mem fun v hv => h.alike hbody (h.calls v hv)
  peak := False.elim
  depth := hstack'.2.trans hstack.2.symm
  counters := False.elim
  output := houtput.trans heffects.output.symm

end InOrder
end Machine

/-! What the comparison says about stores. -/

/-- The second machine has one closure more, in place `k`. Closures made later are one place further
on; nothing else differs, but for the call stack and the counts kept. -/
structure Machine.WithOneMore (k : ClosureId) (extra : Closure) (m m' : Machine) : Prop where
  cells : m'.store.cells = m.store.cells.map (·.rename (·.past k))
  frames : m'.store.frames = m.store.frames.map (·.rename (·.past k))
  closures : m'.store.closures.toList =
    (m.store.closures.toList.map (·.rename (·.past k))).insertIdx k.index extra
  symbols : m'.symbols = m.symbols
  output : m'.output = m.output

section OneMore

variable {spare : Spare} {L : Link (Terms.beside spare)}

private theorem Terms.closure_beside (spare : Spare) : (beside spare).closure = (·.past spare.id) :=
  funext fun c => closure_eq_past rfl c

private theorem Store.Alike.closures_beside {s s' : Store} (h : s.Alike L s') :
    s'.closures.toList =
      (s.closures.toList.map (·.rename (·.past spare.id))).insertIdx spare.id.index spare.content := by
  have hle : spare.id.index ≤ s.closures.size := h.count ▸ L.spare_le rfl
  have hsize : s'.closures.size = s.closures.size + 1 := by
    rw [h.count_right, h.count]
    rfl
  have hget {s : Store} {i : Nat} (hi : i < s.closures.size) :
      s.closures.toList[i]? = some (s.closure ⟨i⟩) := by
    simp [Store.closure, Array.getD_eq_getD_getElem?, hi]
  have hrename {i : Nat} (hi : i < s.closures.size) :
      s'.closure ((⟨i⟩ : ClosureId).past spare.id) = (s.closure ⟨i⟩).rename (·.past spare.id) := by
    have hclosure := (h.closure (c := ⟨i⟩) (h.count ▸ hi)).eq_of_strict trivial
    rwa [Terms.closure_beside] at hclosure
  apply List.ext_getElem?
  intro i
  rcases Nat.lt_trichotomy i spare.id.index with hlt | heq | hgt
  · have hi : i < s.closures.size := Nat.lt_of_lt_of_le hlt hle
    rw [List.getElem?_insertIdx_of_lt hlt, List.getElem?_map, hget hi, hget (hsize ▸ by omega),
      Option.map_some, ← hrename hi, ClosureId.past, if_pos hlt]
  · rw [heq, List.getElem?_insertIdx_self, if_pos (by simpa using hle), hget (hsize ▸ by omega)]
    exact congrArg some (h.spare rfl)
  · rw [List.getElem?_insertIdx_of_gt hgt, List.getElem?_map]
    by_cases hi : i < s'.closures.size
    · have hbefore : i - 1 < s.closures.size := by omega
      have hpast : (⟨i - 1⟩ : ClosureId).past spare.id = ⟨i⟩ :=
        (if_neg (show ¬ i - 1 < spare.id.index by omega)).trans
          (congrArg ClosureId.mk (show i - 1 + 1 = i by omega))
      rw [hget hbefore, hget hi, ← hpast, hrename hbefore, Option.map_some]
    · rw [List.getElem?_eq_none (by simpa using hi), List.getElem?_eq_none (by simp; omega)]
      rfl

theorem Machine.Alike.withOneMore {m m' : Machine} (h : m.Alike L m') :
    m.WithOneMore spare.id spare.content m' where
  cells := by
    rw [h.store.cells_of_strict trivial, Terms.closure_beside]
  frames := by
    rw [h.store.frames_of_strict trivial, Terms.closure_beside]
  closures := h.store.closures_beside
  symbols := h.symbols.strict trivial
  output := h.output

theorem Answer.eq_of_beside {a b : Except EvalError Value}
    (h : Answer (Terms.beside spare).error (Value.Alike L) a b) :
    b = a.map (·.rename (·.past spare.id)) := by
  cases h with
  | ok hv =>
    rw [hv.eq_of_strict trivial, Terms.closure_beside]
    rfl
  | error _ => rfl

end OneMore
end MiniScheme
