import MiniScheme.Equality
import MiniScheme.Store.Errors
import MiniScheme.Store.Sharing
import MiniScheme.Proofs.Alike.Stores
import MiniScheme.Proofs.Printer.Walk
/-! # Alike stores look the same

What can be seen of a value in a store is the same in alike stores: where its rest slots lead, its
text, whether it equals another value, and who holds a closure. Identities of symbols matter only as
far as they tell symbols apart, and symbols that go together have one name.
-/
namespace MiniScheme

variable {K : Terms} {L : Link K}

inductive Spine.Alike (L : Link K) : Spine → Spine → Prop
  | proper {items items' : List Value} (h : Values L items items') :
    Alike L (.proper items) (.proper items')
  | improper {items items' : List Value} {tail tail' : Value} (h : Values L items items')
    (htail : tail.Alike L tail') : Alike L (.improper items tail) (.improper items' tail')
  | circular : Alike L .circular .circular

namespace Store.Alike

variable {s s' : Store} (h : s.Alike L s') {v w : Value}

include h

theorem spine (hv : v.Alike L w) : (s.spine v).Alike L (s'.spine w) := by
  have hwithin (steps : Nat) {reversed reversed' : List Value} {v w : Value}
      (hreversed : Values L reversed reversed') (hv : v.Alike L w) :
      (s.spineWithin steps reversed v).Alike L (s'.spineWithin steps reversed' w) := by
    induction steps generalizing reversed reversed' v w with
    | zero => exact .circular
    | succ steps ih =>
      have hitems : Values L reversed.reverse reversed'.reverse := List.rel_reverse hreversed
      cases hv with
      | symbol hx => exact .improper hitems (.symbol hx)
      | @same v hfits =>
        cases v with
        | pair c => exact ih (.cons (h.first c) hreversed) (h.rest c)
        | nil => exact .proper hitems
        | symbol x => exact hfits.elim
        | _ => exact .improper hitems (.same hfits)
  unfold Store.spine
  rw [h.cells.size_eq]
  exact hwithin _ .nil hv

theorem listLength_eq (hv : v.Alike L w) : s'.listLength w = s.listLength v := by
  have hwithin (steps length : Nat) {slow slow' fast fast' : Value} (hslow : slow.Alike L slow')
      (hfast : fast.Alike L fast') :
      s'.lengthWithin steps length slow' fast' = s.lengthWithin steps length slow fast := by
    induction steps generalizing length slow slow' fast fast' with
    | zero => rfl
    | succ steps ih =>
      cases hfast with
      | symbol hx => rfl
      | @same fast hfits =>
        cases fast with
        | pair c =>
          have hrest := h.rest c
          simp only [Store.lengthWithin, Value.rename]
          generalize s.rest c = rest at hrest
          generalize s'.rest c = rest' at hrest
          cases hrest with
          | symbol hx => rfl
          | @same rest hrest =>
            cases rest with
            | pair c' =>
              cases hslow with
              | symbol hx => rfl
              | @same slow hslow =>
                cases slow with
                | pair d =>
                  dsimp only [Value.rename]
                  rw [(h.rest d).isPair_eq, (h.rest d).same_eq (h.rest c')]
                  split
                  · rfl
                  · exact ih _ (h.rest d) (h.rest c')
                | _ => rfl
            | _ => rfl
        | _ => rfl
  unfold Store.listLength
  rw [h.cells.size_eq]
  exact hwithin _ 0 hv hv

end Store.Alike

namespace Printer

structure Run.Alike (L : Link K) (r r' : Run) : Prop where
  opened : r'.opened = r.opened
  cells : r'.cells = r.cells
  elements : Values L r.elements r'.elements
  tail : r.tail.Alike L r'.tail

inductive Item.Alike (L : Link K) : Item → Item → Prop
  | value {v w : Value} (room : Nat) (h : v.Alike L w) : Alike L (.value v room) (.value w room)
  | text (t : String) : Alike L (.text t) (.text t)
  | close (cells : List CellId) : Alike L (.close cells) (.close cells)

private theorem Item.Alike.eq_pair {c : CellId} {room : Nat} {item : Item}
    (h : Item.Alike L (.value (.pair c) room) item) : item = .value (.pair c) room := by
  obtain ⟨_, hv⟩ | _ | _ := h
  rw [hv.eq_pair]

variable {s s' : Store} (h : s.Alike L s')

private theorem spread_alike (room : Nat) {vs ws : List Value} {after after' : List Item}
    (hvs : Values L vs ws) (hafter : List.Forall₂ (Item.Alike L) after after') :
    List.Forall₂ (Item.Alike L) (spread room vs after) (spread room ws after') := by
  fun_induction spread room vs after generalizing ws after' with
  | case1 after =>
    cases hvs
    exact hafter
  | case2 v after =>
    obtain _ | ⟨hv, _ | _⟩ := hvs
    exact .cons (.value room hv) hafter
  | case3 v w vs after ih =>
    obtain ⟨v', _, hv, htail, rfl⟩ := List.forall₂_cons_left_iff.mp hvs
    obtain ⟨w', ws', hw, hrest, rfl⟩ := List.forall₂_cons_left_iff.mp htail
    change List.Forall₂ _ _ (spread room (w' :: ws') (.text " " :: .value v' room :: after'))
    exact ih (.cons hw hrest) (.cons (.text " ") (.cons (.value room hv) hafter))

private theorem listItems_alike (room : Nat) {r r' : Run} {after after' : List Item}
    (hr : r.Alike L r') (hafter : List.Forall₂ (Item.Alike L) after after') :
    List.Forall₂ (Item.Alike L) (listItems room r after) (listItems room r' after') := by
  have hclosing : List.Forall₂ (Item.Alike L) (.text ")" :: .close r.cells :: after)
      (.text ")" :: .close r.cells :: after') :=
    .cons (.text _) (.cons (.close _) hafter)
  simp only [listItems, hr.tail.isNull_eq, hr.cells]
  apply spread_alike room hr.elements
  split
  · exact hclosing
  · exact .cons (.text _) (.cons (.value room hr.tail) hclosing)

include h

private theorem atomText_eq (style : PrintStyle) {v w : Value} (hv : v.Alike L w) :
    atomText s' style w = atomText s style v := by
  cases hv with
  | symbol hx => exact L.name_eq hx
  | @same v hfits =>
    cases v with
    | closure c => simp only [Value.rename, atomText, (h.closure hfits).name]
    | bool b => cases b <;> rfl
    | _ => rfl

private theorem extend_alike (steps : Nat) {r r' : Run} (hr : r.Alike L r') :
    (Run.extend s steps r).Alike L (Run.extend s' steps r') := by
  induction steps generalizing r r' with
  | zero => exact hr
  | succ steps ih =>
    obtain ⟨opened, cells, elements, tail⟩ := r
    obtain ⟨opened', cells', elements', tail'⟩ := r'
    obtain ⟨rfl, rfl, helements, htail⟩ := hr
    change tail.Alike L tail' at htail
    cases htail with
    | symbol hx => exact ⟨rfl, rfl, helements, .symbol hx⟩
    | @same tail hfits =>
      cases tail with
      | pair c =>
        rw [Run.extend, Run.extend]
        dsimp only [Value.rename]
        split
        · exact ⟨rfl, rfl, helements, .same hfits⟩
        · exact ih ⟨rfl, rfl, .cons (h.first c) helements, h.rest c⟩
      | _ => exact ⟨rfl, rfl, helements, .same hfits⟩

private theorem render_eq (style : PrintStyle) (out : String) (opened : Std.HashSet CellId)
    {items items' : List Item} (hitems : List.Forall₂ (Item.Alike L) items items') :
    render s' style out opened items' = render s style out opened items := by
  have hpairRun (opened : Std.HashSet CellId) (c : CellId) :
      Run.Alike L ⟨opened, [], [], .pair c⟩ ⟨opened, [], [], .pair c⟩ :=
    ⟨rfl, rfl, .nil, .same trivial⟩
  fun_induction render s style out opened items generalizing items' with
  | case1 out opened =>
    cases hitems
    rw [render]
  | case2 out opened t items ih =>
    obtain _ | ⟨ht, hrest⟩ := hitems
    cases ht
    rw [render, ih hrest]
  | case3 out opened cells items ih =>
    obtain _ | ⟨hclose, hrest⟩ := hitems
    cases hclose
    rw [render]
    simpa using ih hrest
  | case4 out opened c room items hopen ih =>
    obtain ⟨item, items', hc, hrest, rfl⟩ := List.forall₂_cons_left_iff.mp hitems
    obtain rfl := hc.eq_pair
    rw [render_opened hopen, ih hrest]
  | case5 out opened c items hopen ih =>
    obtain ⟨item, items', hc, hrest, rfl⟩ := List.forall₂_cons_left_iff.mp hitems
    obtain rfl := hc.eq_pair
    rw [render, if_neg hopen, ih hrest]
  | case6 out opened c items hopen room run =>
    rename_i ih
    obtain ⟨item, items', hc, hrest, rfl⟩ := List.forall₂_cons_left_iff.mp hitems
    obtain rfl := hc.eq_pair
    have hrun := extend_alike h s.cells.size (hpairRun opened c)
    rw [render_list (by simpa using hopen), h.cells.size_eq, hrun.opened]
    exact ih (listItems_alike room hrun hrest)
  | case7 out opened v room items hpair ih =>
    obtain _ | ⟨hv, hrest⟩ := hitems
    obtain ⟨_, hv⟩ | _ | _ := hv
    rw [render, atomText_eq h style hv, ih hrest]
    rintro c rfl
    exact hpair c hv.pair_eq

end Printer

namespace Equality

structure Pending.Alike (L : Link K) (p p' : Pending) : Prop where
  left : p.left.Alike L p'.left
  right : p.right.Alike L p'.right
  room : p'.room = p.room

end Equality

namespace Store.Alike

variable {s s' : Store} (h : s.Alike L s') {v w v' w' : Value}

include h

private theorem print_eq (style : PrintStyle) (hv : v.Alike L w) :
    s'.print style w = s.print style v := by
  have hatom := Printer.atomText_eq h style hv
  cases hv with
  | symbol hx => exact hatom
  | @same v hfits =>
    cases v with
    | pair c =>
      simp only [Store.print, h.cells.size_eq]
      exact Printer.render_eq h style _ _ (.cons (.value _ (.same hfits)) .nil)
    | nil => rfl
    | _ => exact hatom

theorem text_eq (hv : v.Alike L w) : s'.text w = s.text v := h.print_eq .written hv

theorem displayText_eq (hv : v.Alike L w) : s'.displayText w = s.displayText v :=
  h.print_eq .displayed hv

theorem notAProcedure_eq (hv : v.Alike L w) : s'.notAProcedure w = s.notAProcedure v := by
  rw [Store.notAProcedure, Store.notAProcedure, h.text_eq hv]

theorem wrongArgument_eq (procedure expected : String) (hv : v.Alike L w) :
    s'.wrongArgument procedure expected w = s.wrongArgument procedure expected v := by
  simp only [Store.wrongArgument, EvalError.typeMismatch, hv.typeName_eq, h.text_eq hv]

private theorem compareAll_eq {ps ps' : List Equality.Pending}
    (hps : List.Forall₂ (Equality.Pending.Alike L) ps ps') :
    Equality.compareAll s' ps' = Equality.compareAll s ps := by
  fun_induction Equality.compareAll s ps generalizing ps' with
  | case1 =>
    cases hps
    rw [Equality.compareAll]
  | case2 x _ rest ih =>
    obtain ⟨⟨_, _, room⟩, rest', ⟨hleft, hright, rfl⟩, hrest, rfl⟩ := List.forall₂_cons_left_iff.mp hps
    obtain rfl := hleft.eq_pair
    obtain rfl := hright.eq_pair
    cases room <;> rw [Equality.compareAll, if_pos rfl, ih hrest]
  | case3 x y rest hne =>
    obtain ⟨⟨_, _, _⟩, rest', ⟨hleft, hright, rfl⟩, hrest, rfl⟩ := List.forall₂_cons_left_iff.mp hps
    obtain rfl := hleft.eq_pair
    obtain rfl := hright.eq_pair
    rw [Equality.compareAll, if_neg hne]
  | case4 x y rest hne room ih =>
    obtain ⟨⟨_, _, _⟩, rest', ⟨hleft, hright, rfl⟩, hrest, rfl⟩ := List.forall₂_cons_left_iff.mp hps
    obtain rfl := hleft.eq_pair
    obtain rfl := hright.eq_pair
    rw [Equality.compareAll, if_neg hne]
    exact ih (.cons ⟨h.first x, h.first y, rfl⟩ (.cons ⟨h.rest x, h.rest y, rfl⟩ hrest))
  | case5 a b room rest hpair hsame ih =>
    obtain ⟨⟨_, _, _⟩, rest', ⟨hleft, hright, rfl⟩, hrest, rfl⟩ := List.forall₂_cons_left_iff.mp hps
    rw [Equality.compareAll, hleft.same_eq hright, if_pos hsame, ih hrest]
    rintro x y rfl rfl
    exact hpair x y hleft.pair_eq hright.pair_eq
  | case6 a b room rest hpair hsame =>
    obtain ⟨⟨_, _, _⟩, rest', ⟨hleft, hright, rfl⟩, hrest, rfl⟩ := List.forall₂_cons_left_iff.mp hps
    rw [Equality.compareAll, hleft.same_eq hright, if_neg hsame]
    rintro x y rfl rfl
    exact hpair x y hleft.pair_eq hright.pair_eq

theorem equal?_eq (hv : v.Alike L v') (hw : w.Alike L w') : s'.equal? v' w' = s.equal? v w := by
  unfold Store.equal?
  rw [h.cells.size_eq]
  exact h.compareAll_eq (.cons ⟨hv, hw, rfl⟩ .nil)

end Store.Alike


end MiniScheme
