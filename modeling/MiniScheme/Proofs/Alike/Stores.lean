import MiniScheme.Proofs.Alike.Values
/-! # Alike stores stay alike

Each operation on a store, carried out on alike stores with alike values, gives alike results and
leaves alike stores. Only a new closure takes a later link.
-/
namespace MiniScheme

variable {K : Terms} {L : Link K}

/-- Related results, or the same error, which may occur. -/
inductive Answer {ε α β : Type} (E : ε → Prop) (R : α → β → Prop) : Except ε α → Except ε β → Prop
  | ok {a : α} {b : β} (h : R a b) : Answer E R (.ok a) (.ok b)
  | error {e : ε} (h : E e) : Answer E R (.error e) (.error e)

namespace Frame

variable {f f' : Frame} {x y : Symbol} {v w : Value}

private theorem Alike.get? (h : f.Alike L f') (hx : L.symbol x y) :
    Option.Rel (Value.Alike L) (f.get? x) (f'.get? y) := by
  obtain ⟨bindings, parent⟩ := f
  obtain ⟨bindings', parent'⟩ := f'
  have hbindings : List.Forall₂ (Binding.Alike L) bindings bindings' := h.bindings
  clear h
  simp only [Frame.get?]
  induction hbindings with
  | nil => exact .none
  | cons hb _ ih =>
    rw [List.find?_cons, List.find?_cons, L.same_eq hb.name hx]
    split
    · exact .some hb.value
    · exact ih

private theorem Alike.binds_eq (h : f.Alike L f') (hx : L.symbol x y) : f'.binds y = f.binds x := by
  obtain ⟨bindings, parent⟩ := f
  obtain ⟨bindings', parent'⟩ := f'
  have hbindings : List.Forall₂ (Binding.Alike L) bindings bindings' := h.bindings
  clear h
  simp only [Frame.binds]
  induction hbindings with
  | nil => rfl
  | cons hb _ ih => rw [List.any_cons, List.any_cons, L.same_eq hb.name hx, ih]

private theorem Alike.replace (h : f.Alike L f') (hx : L.symbol x y) (hv : v.Alike L w) :
    (f.replace x v).Alike L (f'.replace y w) := by
  refine ⟨h.parent, ?_⟩
  refine List.rel_map (fun b b' hb => ?_) h.bindings
  rw [L.same_eq hb.name hx]
  split
  · exact ⟨hb.name, hv⟩
  · exact hb

private theorem Alike.put (h : f.Alike L f') (hx : L.symbol x y) (hv : v.Alike L w) :
    (f.put x v).Alike L (f'.put y w) := by
  unfold Frame.put
  rw [h.binds_eq hx]
  split
  · exact h.replace hx hv
  · exact ⟨h.parent, .cons ⟨hx, hv⟩ h.bindings⟩

end Frame

private theorem Formals.Alike.arity_eq {f f' : Formals} (h : f.Alike L f') :
    f'.arity = f.arity := by
  cases h with
  | fixed h => exact congrArg Arity.exact h.length_eq.symm
  | variadic h hrest => exact congrArg Arity.atLeast h.length_eq.symm

private theorem Closure.Alike.displayName_eq {c c' : Closure} (h : c.Alike L c') :
    c'.displayName = c.displayName := by
  rw [Closure.displayName, Closure.displayName, h.name]

theorem bindings_zip {names names' : List Symbol} {args args' : List Value}
    (hnames : List.Forall₂ L.symbol names names') (hargs : Values L args args') :
    List.Forall₂ (Binding.Alike L) (names.zip args) (names'.zip args') := by
  induction hnames generalizing args args' with
  | nil => exact .nil
  | cons hx _ ih =>
    cases hargs with
    | nil => exact .nil
    | cons hv hrest => exact .cons ⟨hx, hv⟩ (ih hrest)

namespace Store

theorem closure_newClosure (s : Store) (c : Closure) (d : ClosureId) :
    (s.newClosure c).2.closure d = if d.index = s.closures.size then c else s.closure d := by
  simp only [newClosure, closure, Array.getD_eq_getD_getElem?, Array.getElem?_push]
  split <;> rfl

private theorem closure_nameClosure (s : Store) (c : ClosureId) (name : String) (d : ClosureId) :
    (s.nameClosure c name).closure d =
      if d.index < s.closures.size ∧ c.index = d.index then { s.closure d with name := some name }
      else s.closure d := by
  simp only [nameClosure, closure, Array.getD_eq_getD_getElem?, Array.getElem?_modify]
  by_cases hcd : c.index = d.index
  · by_cases hd : d.index < s.closures.size <;> simp [hcd, hd]
  · simp [hcd]

end Store

namespace Store.Alike

variable {s s' : Store} (h : s.Alike L s') {v w v' w' : Value} {x y : Symbol}

include h

private theorem cell (c : CellId) : (s.cell c).Alike L (s'.cell c) := by
  have hempty : Cell.Alike L ⟨.nil, .nil⟩ ⟨.nil, .nil⟩ := ⟨.same trivial, .same trivial⟩
  exact h.cells.getD hempty c.index

theorem first (c : CellId) : (s.first c).Alike L (s'.first c) := (h.cell c).first

theorem rest (c : CellId) : (s.rest c).Alike L (s'.rest c) := (h.cell c).rest

theorem frame (e : FrameId) : (s.frame e).Alike L (s'.frame e) := h.frames.getD ⟨rfl, .nil⟩ e.index

theorem cons (hv : v.Alike L v') (hw : w.Alike L w') :
    (s.cons v w).1.Alike L (s'.cons v' w').1 ∧ (s.cons v w).2.Alike L (s'.cons v' w').2 := by
  refine ⟨?_, { h with cells := h.cells.push ⟨hv, hw⟩ }⟩
  simp only [Store.cons, h.cells.size_eq]
  exact .same trivial

theorem setFirst (c : CellId) (hv : v.Alike L v') : (s.setFirst c v).Alike L (s'.setFirst c v') := by
  refine { h with cells := h.cells.modify ?_ c.index }
  intro _ _ hc
  exact ⟨hv, hc.rest⟩

theorem setRest (c : CellId) (hv : v.Alike L v') : (s.setRest c v).Alike L (s'.setRest c v') := by
  refine { h with cells := h.cells.modify ?_ c.index }
  intro _ _ hc
  exact ⟨hc.first, hv⟩

theorem consAll {vs vs' : List Value} (hv : v.Alike L v') (hvs : Values L vs vs') :
    (s.consAll v vs).1.Alike L (s'.consAll v' vs').1 ∧
      (s.consAll v vs).2.Alike L (s'.consAll v' vs').2 := by
  induction hvs generalizing s s' v v' with
  | nil => exact ⟨hv, h⟩
  | cons hw _ ih =>
    obtain ⟨hpair, hstore⟩ := h.cons hw hv
    exact ih hstore hpair

theorem list {vs vs' : List Value} (hvs : Values L vs vs') :
    (s.list vs).1.Alike L (s'.list vs').1 ∧ (s.list vs).2.Alike L (s'.list vs').2 :=
  h.consAll (.same trivial) (List.rel_reverse hvs)

theorem newClosure {c c' : Closure} (hc : c.Alike L c') :
    (s'.newClosure c').1 = K.closure (s.newClosure c).1 ∧
      (s.newClosure c).1.index < L.next.closures ∧
      (s.newClosure c).2.Alike L.next (s'.newClosure c').2 := by
  have hle := L.adds_next.le
  have hid : (s'.newClosure c').1 = K.closure (s.newClosure c).1 := by
    change ⟨s'.closures.size⟩ = K.closure ⟨s.closures.size⟩
    rw [h.count, h.count_right, L.closure_next]
  refine ⟨hid, ?_, ?_⟩
  · change s.closures.size < L.closures + 1
    rw [h.count]
    exact Nat.lt_succ_self _
  · refine ⟨h.cells.mono fun _ _ => .mono hle, h.frames.mono fun _ _ => .mono hle, ?_, ?_, ?_, ?_⟩
    · intro d hd
      rw [Store.closure_newClosure, Store.closure_newClosure, h.count, h.count_right]
      rcases Nat.lt_succ_iff_lt_or_eq.mp hd with hlt | heq
      · rw [if_neg (Nat.ne_of_lt hlt), if_neg (Nat.ne_of_lt (L.closure_lt_iff.mpr hlt))]
        exact (h.closure hlt).mono hle
      · obtain rfl : d = ⟨L.closures⟩ := congrArg ClosureId.mk heq
        rw [L.closure_next, if_pos rfl, if_pos rfl]
        exact hc.mono hle
    · change (s.closures.push c).size = L.closures + 1
      rw [Array.size_push, h.count]
    · change (s'.closures.push c').size = K.count (L.closures + 1)
      rw [Array.size_push, h.count_right]
      exact (K.count_succ _).symm
    · intro spare hK
      have hlt : spare.id.index < s'.closures.size := by
        rw [h.count_right, K.count_of_some hK]
        exact Nat.lt_succ_of_le (L.spare_le hK)
      rw [Store.closure_newClosure, if_neg (Nat.ne_of_lt hlt), h.spare hK]

theorem nameClosure (c : ClosureId) (name : String) :
    (s.nameClosure c name).Alike L (s'.nameClosure (K.closure c) name) := by
  refine { h with closure := ?_, count := ?_, count_right := ?_, spare := ?_ }
  · intro d hd
    have hclosure := h.closure hd
    have hsame : (K.closure c).index = (K.closure d).index ↔ c.index = d.index := by
      rw [← beq_iff_eq, K.index_closure_beq, beq_iff_eq]
    rw [Store.closure_nameClosure, Store.closure_nameClosure, h.count, h.count_right]
    simp only [hsame, L.closure_lt_iff]
    split
    · exact ⟨rfl, hclosure.formals, hclosure.distinct, hclosure.body, hclosure.nonempty, hclosure.env⟩
    · exact hclosure
  · exact Array.size_modify.trans h.count
  · exact Array.size_modify.trans h.count_right
  · intro spare hK
    have hne : (K.closure c).index ≠ spare.id.index := fun heq =>
      Terms.closure_ne_spare hK c (congrArg ClosureId.mk heq)
    rw [Store.closure_nameClosure, if_neg fun hand => hne hand.2, h.spare hK]

theorem newFrame (parent : Option FrameId) :
    (s'.newFrame parent).1 = (s.newFrame parent).1 ∧
      (s.newFrame parent).2.Alike L (s'.newFrame parent).2 :=
  ⟨congrArg FrameId.mk h.frames.size_eq, { h with frames := h.frames.push ⟨rfl, .nil⟩ }⟩

private theorem modifyFrame {f g : Frame → Frame} (hfg : ∀ a b, a.Alike L b → (f a).Alike L (g b))
    (e : FrameId) : (s.modifyFrame e f).Alike L (s'.modifyFrame e g) :=
  { h with frames := h.frames.modify hfg e.index }

theorem define (e : FrameId) (hx : L.symbol x y) (hv : v.Alike L v') :
    (s.define e x v).Alike L (s'.define e y v') :=
  h.modifyFrame (fun _ _ hf => hf.put hx hv) e

theorem defineAll (e : FrameId) {bindings bindings' : List (Symbol × Value)}
    (hb : List.Forall₂ (Binding.Alike L) bindings bindings') :
    (s.defineAll e bindings).Alike L (s'.defineAll e bindings') := by
  induction hb generalizing s s' with
  | nil => exact h
  | cons hb _ ih => exact ih (h.define e hb.name hb.value)

private theorem owner_eq (e : FrameId) (hx : L.symbol x y) : s'.owner e y = s.owner e x := by
  have hwithin (steps : Nat) (e : FrameId) : s'.ownerWithin y steps e = s.ownerWithin x steps e := by
    induction steps generalizing e with
    | zero => rfl
    | succ steps ih =>
      rw [Store.ownerWithin, Store.ownerWithin, (h.frame e).binds_eq hx, (h.frame e).parent]
      split
      · rfl
      · split
        · exact ih _
        · rfl
  exact hwithin _ e

theorem lookup (e : FrameId) (hx : L.symbol x y) :
    Answer K.error (Value.Alike L) (s.lookup e x) (s'.lookup e y) := by
  have hwithin (steps : Nat) (e : FrameId) :
      Option.Rel (Value.Alike L) (s.lookupWithin x steps e) (s'.lookupWithin y steps e) := by
    induction steps generalizing e with
    | zero => exact .none
    | succ steps ih =>
      have hget := (h.frame e).get? hx
      rw [Store.lookupWithin, Store.lookupWithin, (h.frame e).parent]
      generalize (s.frame e).get? x = found at hget
      generalize (s'.frame e).get? y = found' at hget
      cases hget with
      | some hv => exact .some hv
      | none =>
        dsimp only
        split
        · exact ih _
        · exact .none
  have hfound := hwithin (e.index + 1) e
  unfold Store.lookup
  generalize s.lookupWithin x (e.index + 1) e = found at hfound
  generalize s'.lookupWithin y (e.index + 1) e = found' at hfound
  cases hfound with
  | some hv => exact .ok hv
  | none =>
    rw [L.name_eq hx]
    exact .error (K.error_of_not_internal rfl)

theorem assign (e : FrameId) (hx : L.symbol x y) (hv : v.Alike L v') :
    Answer K.error Eq (s.assign e x v).1 (s'.assign e y v').1 ∧
      (s.assign e x v).2.Alike L (s'.assign e y v').2 := by
  unfold Store.assign
  rw [h.owner_eq e hx]
  split
  · exact ⟨.ok rfl, h.modifyFrame (fun _ _ hf => hf.replace hx hv) _⟩
  · rw [L.name_eq hx]
    exact ⟨.error (K.error_of_not_internal rfl), h⟩

private theorem extend (e : FrameId) {formals formals' : Formals} (hf : formals.Alike L formals')
    {args args' : List Value} (hargs : Values L args args') :
    Answer K.error Eq (s.extend e formals args).1 (s'.extend e formals' args').1 ∧
      (s.extend e formals args).2.Alike L (s'.extend e formals' args').2 := by
  obtain ⟨hframe, hchild⟩ := h.newFrame (some e)
  simp only [Store.extend, Store.child, hf.arity_eq, hargs.length_eq.symm, hframe]
  split
  · cases hf with
    | fixed hnames => exact ⟨.ok rfl, hchild.defineAll _ (bindings_zip hnames hargs)⟩
    | @variadic names names' rest rest' hnames hrest =>
      dsimp only
      rw [← hnames.length_eq]
      obtain ⟨hextra, hstore⟩ := hchild.list (List.forall₂_drop names.length hargs)
      exact ⟨.ok rfl, (hstore.defineAll _ (bindings_zip hnames hargs)).define _ hrest hextra⟩
  · exact ⟨.error (K.error_of_not_internal rfl), h⟩

theorem bind {c c' : Closure} (hc : c.Alike L c') {args args' : List Value}
    (hargs : Values L args args') :
    Answer K.error Eq (s.bind c args).1 (s'.bind c' args').1 ∧
      (s.bind c args).2.Alike L (s'.bind c' args').2 := by
  unfold Store.bind
  rw [hc.formals.arity_eq, hc.displayName_eq, ← hargs.length_eq, Arity.check]
  split_ifs
  · rw [hc.env]
    exact h.extend _ hc.formals hargs
  · exact ⟨.error (K.error_of_not_internal rfl), h⟩

end Store.Alike
end MiniScheme
