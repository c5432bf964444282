import MiniScheme.Store.Environment
/-! # Single frames

What the operations on a store do to each frame, and what binding a name in a frame does to look-up
there.
-/
namespace MiniScheme

namespace Frame

variable {f : Frame} {x y : Symbol} {v : Value}

def names (f : Frame) : List Symbol := f.bindings.map (·.1)

theorem names_replace (f : Frame) (x : Symbol) (v : Value) : (f.replace x v).names = f.names := by
  simp only [names, replace, List.map_map]
  apply List.map_congr_left
  intro b _
  simp only [Function.comp_apply]
  split <;> rfl

theorem binds_eq_any_names (f : Frame) (x : Symbol) :
    f.binds x = f.names.any (fun y => y.same x) := by
  rw [binds, names, List.any_map]
  rfl

theorem isSome_get? (f : Frame) (x : Symbol) : (f.get? x).isSome = f.binds x := by
  rw [get?, Option.isSome_map, List.isSome_find?, binds]

theorem get?_eq_none_iff : f.get? x = none ↔ f.binds x = false := by
  rw [← isSome_get?, Option.isSome_eq_false_iff, Option.isNone_iff_eq_none]

private theorem get?_of_same (f : Frame) (h : x.same y = true) : f.get? x = f.get? y := by
  simp only [get?, Symbol.same, (Symbol.same_iff x y).mp h]

theorem binds_of_same (f : Frame) (h : x.same y = true) : f.binds x = f.binds y := by
  rw [← isSome_get?, ← isSome_get?, f.get?_of_same h]

theorem get?_replace (f : Frame) (x y : Symbol) (v : Value) :
    (f.replace x v).get? y =
      if x.same y = true ∧ f.binds y = true then some v else f.get? y := by
  have hkeys : (fun b : Symbol × Value => b.1.same y) ∘
      (fun b : Symbol × Value => if b.1.same x then (b.1, v) else b) = fun b => b.1.same y := by
    funext b
    simp only [Function.comp_apply]
    split <;> rfl
  rw [← isSome_get?, get?, get?, replace, List.find?_map, hkeys]
  cases hfind : f.bindings.find? (fun b => b.1.same y) with
  | none => simp
  | some b =>
    have hb : b.1.id = y.id := by simpa [Symbol.same_iff] using List.find?_some hfind
    have hsame : b.1.same x = x.same y := by
      rw [Symbol.same, Symbol.same, hb, Bool.beq_comm]
    simp only [Option.map_some, Option.isSome_some, hsame, and_true]
    split <;> rfl

theorem get?_put (f : Frame) (x y : Symbol) (v : Value) :
    (f.put x v).get? y = if x.same y = true then some v else f.get? y := by
  unfold put
  split
  · next hbinds =>
    rw [get?_replace]
    by_cases hsame : x.same y = true
    · rw [if_pos hsame, if_pos ⟨hsame, by rwa [← f.binds_of_same hsame]⟩]
    · rw [if_neg hsame, if_neg fun h => hsame h.1]
  · by_cases hsame : x.same y = true
    · simp [get?, hsame]
    · simp [get?, hsame]

end Frame

namespace Store

theorem frame_of_frames_eq {s s' : Store} (h : s'.frames = s.frames) (e : FrameId) :
    s'.frame e = s.frame e := by
  simp only [frame, h]

theorem frames_consAll (s : Store) (tail : Value) (reversed : List Value) :
    (s.consAll tail reversed).2.frames = s.frames := by
  induction reversed generalizing s tail with
  | nil => rfl
  | cons v reversed ih => exact ih _ _

theorem frame_modifyFrame_eq (s : Store) (e e' : FrameId) (f : Frame → Frame) :
    (s.modifyFrame e f).frame e' =
      if e' = e ∧ e.index < s.frames.size then f (s.frame e') else s.frame e' := by
  obtain ⟨k⟩ := e
  obtain ⟨k'⟩ := e'
  simp only [frame, modifyFrame, Array.getD_eq_getD_getElem?, Array.getElem?_modify,
    FrameId.mk.injEq]
  by_cases hk : k = k'
  · subst hk
    by_cases hlt : k < s.frames.size
    · simp [hlt]
    · simp [hlt]
  · simp [hk, Ne.symm hk]

theorem frame_modifyFrame (s : Store) (e e' : FrameId) (f : Frame → Frame) :
    (s.modifyFrame e f).frame e' = s.frame e' ∨
      e' = e ∧ (s.modifyFrame e f).frame e' = f (s.frame e') := by
  rw [frame_modifyFrame_eq]
  split
  · next h => exact .inr ⟨h.1, rfl⟩
  · exact .inl rfl

theorem size_modifyFrame (s : Store) (e : FrameId) (f : Frame → Frame) :
    (s.modifyFrame e f).frames.size = s.frames.size := by
  simp [modifyFrame]

theorem frame_newFrame (s : Store) (parent : Option FrameId) (e : FrameId) :
    (s.newFrame parent).2.frame e =
      if e.index = s.frames.size then ⟨[], parent⟩ else s.frame e := by
  simp only [newFrame, frame, Array.getD_eq_getD_getElem?, Array.getElem?_push]
  split <;> rfl

theorem frame_child {s : Store} {e' : FrameId} (e : FrameId) (h : e'.index < s.frames.size) :
    (s.child e).2.frame e' = s.frame e' := by
  rw [child, frame_newFrame, if_neg (Nat.ne_of_lt h)]

theorem size_child (s : Store) (e : FrameId) :
    (s.child e).2.frames.size = s.frames.size + 1 := by
  simp [child, newFrame]

theorem frame_assign (s : Store) (env : FrameId) (x : Symbol) (v : Value) (e : FrameId) :
    (s.assign env x v).2.frame e = s.frame e ∨
      s.owner env x = some e ∧ (s.assign env x v).2.frame e = (s.frame e).replace x v := by
  unfold assign
  split
  · next owner howner =>
    rcases frame_modifyFrame s owner e (fun f => f.replace x v) with heq | ⟨rfl, heq⟩
    · exact .inl heq
    · exact .inr ⟨howner, heq⟩
  · exact .inl rfl

theorem size_assign (s : Store) (env : FrameId) (x : Symbol) (v : Value) :
    (s.assign env x v).2.frames.size = s.frames.size := by
  unfold assign
  split
  · exact size_modifyFrame s _ _
  · rfl

end Store
end MiniScheme
