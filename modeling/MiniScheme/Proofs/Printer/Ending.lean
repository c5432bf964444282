import Mathlib.Data.Finset.Card
import Mathlib.Data.List.Permutation
import Mathlib.Logic.Function.Iterate
import MiniScheme.Proofs.Printer.Walk
/-! # Printing ends

The walk of the printer on any store, with circles through first and rest slots and any sharing.
Opening a list leaves fewer pairs that are not open, so lists are nested no deeper than there are
pairs, and the walk comes to its end even if the room that its values carry is not looked at. By
then every list has been closed, and the text is that of a recursive definition: a list is written
by the longest run of pairs along its rest slots that are not open yet, and a pair that is open
already by three points.
-/
namespace MiniScheme

namespace Store

variable {s : Store} {v : Value} {l l' : List CellId} {c : CellId}

def unopened (s : Store) (l : List CellId) : Nat :=
  ((Finset.range s.cells.size).filter fun i => (⟨i⟩ : CellId) ∉ l).card

private theorem unopened_nil (s : Store) : s.unopened [] = s.cells.size := by
  simp [unopened]

private theorem unopened_le_of_subset (h : l ⊆ l') : s.unopened l' ≤ s.unopened l :=
  Finset.card_le_card (Finset.monotone_filter_right _ fun _ _ hi hl => hi (h hl))

private theorem unopened_cons_lt (hc : c.index < s.cells.size) (hl : c ∉ l) :
    s.unopened (c :: l) < s.unopened l := by
  have hsubset : ((Finset.range s.cells.size).filter fun i => (⟨i⟩ : CellId) ∉ c :: l) ⊆
      (Finset.range s.cells.size).filter fun i => (⟨i⟩ : CellId) ∉ l :=
    Finset.monotone_filter_right _ fun _ _ hi hmem => hi (List.mem_cons_of_mem _ hmem)
  apply Finset.card_lt_card
  apply (Finset.ssubset_iff_of_subset hsubset).mpr
  exact ⟨c.index, by simp [hc, hl], by simp⟩

/-- The pair can be opened while those of `l` are open. -/
def Openable (s : Store) (l : List CellId) (c : CellId) : Prop :=
  c.index < s.cells.size ∧ c ∉ l

instance (s : Store) (l : List CellId) (c : CellId) : Decidable (s.Openable l c) :=
  inferInstanceAs (Decidable (_ ∧ _))

/-- The pairs along the rest slots of a value, up to one that is open already, and what stands
behind them. -/
def openRun (s : Store) (l : List CellId) (v : Value) : List CellId × Value :=
  match v with
  | .pair c =>
    if _h : s.Openable l c then
      let run := s.openRun (c :: l) (s.rest c)
      (c :: run.1, run.2)
    else ([], .pair c)
  | v => ([], v)
termination_by s.unopened l
decreasing_by exact unopened_cons_lt _h.1 _h.2

private theorem openRun_pair (h : s.Openable l c) :
    s.openRun l (.pair c) =
      (c :: (s.openRun (c :: l) (s.rest c)).1, (s.openRun (c :: l) (s.rest c)).2) := by
  rw [openRun, dif_pos h]

private theorem unopened_openRun_lt (h : s.Openable l c) :
    s.unopened ((s.openRun l (.pair c)).1 ++ l) < s.unopened l := by
  refine Nat.lt_of_le_of_lt (unopened_le_of_subset ?_) (unopened_cons_lt h.1 h.2)
  rw [openRun_pair h]
  simp

private theorem not_mem_of_mem_openRun {d : CellId} (h : d ∈ (s.openRun l v).1) : d ∉ l := by
  fun_induction openRun s l v with
  | case1 l c hc run ih =>
    rcases List.mem_cons.mp h with rfl | h
    · exact hc.2
    · exact fun hd => ih h (List.mem_cons_of_mem _ hd)
  | case2 l c hc => simp at h
  | case3 l v hv => simp at h

private theorem reaches_of_mem_openRun {d : CellId} (h : d ∈ (s.openRun l v).1) :
    s.Reaches v d := by
  fun_induction openRun s l v with
  | case1 l c hc run ih =>
    rcases List.mem_cons.mp h with rfl | h
    · exact .here d
    · exact .rest (ih h)
  | case2 l c hc => simp at h
  | case3 l v hv => simp at h

private theorem reaches_of_openRun_tail {d : CellId} (h : s.Reaches (s.openRun l v).2 d) :
    s.Reaches v d := by
  fun_induction openRun s l v with
  | case1 l c hc run ih => exact .rest (ih h)
  | case2 l c hc => exact h
  | case3 l v hv => exact h

end Store

namespace Printer

variable {s : Store} {style : PrintStyle} {v : Value} {l : List CellId} {c : CellId}

section Text

variable (s : Store) (leaf : Value → String)

/-- The text of a value inside lists whose pairs are those of `l`. -/
def nestedText (l : List CellId) (v : Value) : String :=
  match v with
  | .pair c =>
    if _h : s.Openable l c then
      let cells := (s.openRun l (.pair c)).1
      let tail := (s.openRun l (.pair c)).2
      "(" ++ " ".intercalate (cells.map fun d => nestedText (cells ++ l) (s.first d)) ++
        (if tail.isNull then "" else " . " ++ nestedText (cells ++ l) tail) ++ ")"
    else "..."
  | v => leaf v
termination_by s.unopened l
decreasing_by
  · exact Store.unopened_openRun_lt _h
  · exact Store.unopened_openRun_lt _h

end Text

structure Walk where
  /-- What has been written. -/
  out : String
  /-- The pairs of the lists that are being written. -/
  opened : Std.HashSet CellId
  /-- What is left to print. -/
  items : List Item

namespace Walk

variable {leaf : Value → String} {w w' w'' : Walk}

/-- Print the first item. The number of lists that may be opened inside it is not looked at. -/
def step (s : Store) (leaf : Value → String) : Walk → Walk
  | ⟨out, opened, []⟩ => ⟨out, opened, []⟩
  | ⟨out, opened, .text t :: items⟩ => ⟨out ++ t, opened, items⟩
  | ⟨out, opened, .close cells :: items⟩ => ⟨out, cells.foldl (·.erase ·) opened, items⟩
  | ⟨out, opened, .value (.pair c) room :: items⟩ =>
    if opened.contains c then ⟨out ++ "...", opened, items⟩
    else
      let run := Run.extend s s.cells.size ⟨opened, [], [], .pair c⟩
      ⟨out ++ "(", run.opened, listItems (room - 1) run items⟩
  | ⟨out, opened, .value v _ :: items⟩ => ⟨out ++ leaf v, opened, items⟩

private theorem step_atom (hv : v.isPair = false) (out : String) (opened : Std.HashSet CellId)
    (room : Nat) (items : List Item) :
    step s leaf ⟨out, opened, .value v room :: items⟩ = ⟨out ++ leaf v, opened, items⟩ := by
  rw [step]
  exact Value.isPair_eq_false_iff.mp hv

private theorem step_opened {opened : Std.HashSet CellId} (hc : opened.contains c = true)
    (out : String) (room : Nat) (items : List Item) :
    step s leaf ⟨out, opened, .value (.pair c) room :: items⟩ = ⟨out ++ "...", opened, items⟩ := by
  rw [step, if_pos hc]

def start (s : Store) (v : Value) : Walk :=
  ⟨if v.isPair || v.isNull then "'" else "", ∅, [.value v s.cells.size]⟩

/-- What `render` makes of the walk. -/
def text (s : Store) (style : PrintStyle) (w : Walk) : String :=
  render s style w.out w.opened w.items

/-- There is room for a list that comes next. -/
def Roomy (w : Walk) : Prop :=
  ∀ c items, w.items = .value (.pair c) 0 :: items → w.opened.contains c = true

/-- Step by step the walk gets from one place to another, and there is always room. -/
inductive Goes (s : Store) (leaf : Value → String) : Walk → Walk → Prop
  | here (w : Walk) : Goes s leaf w w
  | next {w w' : Walk} (hroom : w.Roomy) (h : Goes s leaf (w.step s leaf) w') : Goes s leaf w w'

theorem Goes.trans (h : Goes s leaf w w') (h' : Goes s leaf w' w'') : Goes s leaf w w'' := by
  induction h with
  | here w => exact h'
  | next hroom _ ih => exact .next hroom (ih h')

private theorem Goes.exists_iterate (h : Goes s leaf w w') : ∃ n, (step s leaf)^[n] w = w' := by
  induction h with
  | here w => exact ⟨0, rfl⟩
  | next _ _ ih =>
    obtain ⟨n, hn⟩ := ih
    exact ⟨n + 1, hn⟩

/-- A step with room is one of `render`. -/
theorem text_step (hleaf : ∀ a, a.isPair = false → leaf a = atomText s style a)
    (hroom : w.Roomy) : (w.step s leaf).text s style = w.text s style := by
  obtain ⟨out, opened, items⟩ := w
  cases items with
  | nil => rfl
  | cons item items =>
    cases item with
    | text t => exact (render_text out opened t items).symm
    | close cells => rw [text, text, render]; rfl
    | value v room =>
      cases hv : v.isPair with
      | false =>
        rw [step_atom hv, text, text, render_atom hv, hleaf v hv]
      | true =>
        obtain ⟨c, rfl⟩ := Value.isPair_eq_true_iff.mp hv
        by_cases hc : opened.contains c = true
        · rw [step_opened hc, text, text, render_opened hc]
        · cases room with
          | zero => exact absurd (hroom c items rfl) hc
          | succ room =>
            rw [text, text, render_list (by simpa using hc), step, if_neg hc]
            rfl

private theorem Goes.text_eq (hleaf : ∀ a, a.isPair = false → leaf a = atomText s style a)
    (h : Goes s leaf w w') : w.text s style = w'.text s style := by
  induction h with
  | here w => rfl
  | next hroom _ ih => rw [← ih, text_step hleaf hroom]

theorem text_start (s : Store) (style : PrintStyle) (v : Value) :
    (start s v).text s style = s.print style v := by
  cases hv : v.isPair with
  | true =>
    obtain ⟨c, rfl⟩ := Value.isPair_eq_true_iff.mp hv
    rfl
  | false =>
    rw [text, start, render_atom hv, render, print_atom hv, Tree.topText, hv, Bool.false_or]
    cases hnull : v.isNull with
    | false => simp
    | true =>
      obtain rfl := Value.isNull_eq_true_iff.mp hnull
      rfl

end Walk

open Walk

variable {leaf : Value → String} {room : Nat}

/-- While the pairs of `l` are open, the walk gets past the items, has then appended the text, and
the same pairs are open. -/
def Emits (s : Store) (leaf : Value → String) (l : List CellId) (items : List Item)
    (text : String) : Prop :=
  ∀ (out : String) (opened : Std.HashSet CellId) (after : List Item), Opens opened l →
    ∃ opened', Opens opened' l ∧
      Goes s leaf ⟨out, opened, items ++ after⟩ ⟨out ++ text, opened', after⟩

private theorem Emits.nil : Emits s leaf l [] "" := by
  intro out opened after hopened
  exact ⟨opened, hopened, by simpa using Goes.here _⟩

private theorem Emits.append {items items' : List Item} {text text' : String}
    (h : Emits s leaf l items text) (h' : Emits s leaf l items' text') :
    Emits s leaf l (items ++ items') (text ++ text') := by
  intro out opened after hopened
  obtain ⟨opened₁, hopened₁, hgoes₁⟩ := h out opened (items' ++ after) hopened
  obtain ⟨opened₂, hopened₂, hgoes₂⟩ := h' (out ++ text) opened₁ after hopened₁
  rw [List.append_assoc, ← String.append_assoc]
  exact ⟨opened₂, hopened₂, hgoes₁.trans hgoes₂⟩

theorem Emits.of_step {item : Item} {text : String}
    (hroom : ∀ out opened after, Opens opened l → Roomy ⟨out, opened, item :: after⟩)
    (hstep : ∀ out opened after, Opens opened l →
      Walk.step s leaf ⟨out, opened, item :: after⟩ = ⟨out ++ text, opened, after⟩) :
    Emits s leaf l [item] text := by
  intro out opened after hopened
  refine ⟨opened, hopened, .next (hroom out opened after hopened) ?_⟩
  rw [List.singleton_append, hstep out opened after hopened]
  exact .here _

private theorem Emits.text (text : String) : Emits s leaf l [.text text] text :=
  .of_step (fun _ _ _ _ => by rintro c items ⟨⟩) fun _ _ _ _ => rfl

private theorem Emits.atom (hv : v.isPair = false) : Emits s leaf l [.value v room] (leaf v) := by
  apply Emits.of_step
  · rintro out opened after - c items ⟨⟩
    simp [Value.isPair] at hv
  · intro out opened after _
    exact step_atom hv out opened room after

private theorem Emits.opened (hc : c ∈ l) : Emits s leaf l [.value (.pair c) room] "..." := by
  have hcontains : ∀ {opened}, Opens opened l → opened.contains c = true := by
    intro opened hopened
    rw [hopened.contains_eq, decide_eq_true hc]
  apply Emits.of_step
  · rintro out opened after hopened d items ⟨⟩
    exact hcontains hopened
  · intro out opened after hopened
    exact step_opened (hcontains hopened) out room after

theorem Emits.elements {f : Value → String} {vs : List Value}
    (h : ∀ w ∈ v :: vs, Emits s leaf l [.value w room] (f w)) :
    Emits s leaf l (.value v room :: restItems room vs) (" ".intercalate ((v :: vs).map f)) := by
  induction vs generalizing v with
  | nil =>
    rw [List.map_singleton, String.intercalate_singleton]
    exact h v (List.mem_cons_self ..)
  | cons w vs ih =>
    have hv := h v (List.mem_cons_self ..)
    have hvs := ih fun u hu => h u (List.mem_cons_of_mem _ hu)
    have hall := (hv.append (.text " ")).append hvs
    simpa [restItems, String.intercalate_cons_cons] using hall

theorem Emits.ending {text : String} (h : Emits s leaf l [.value v room] text) :
    Emits s leaf l (endItems room v) (if v.isNull then "" else " . " ++ text) := by
  rw [endItems]
  split
  · exact .nil
  · exact (Emits.text " . ").append h

theorem extend_eq_openRun (hv : s.Holds v) {steps : Nat} (hsteps : s.unopened l ≤ steps)
    {opened : Std.HashSet CellId} (hopened : Opens opened l) (cells : List CellId)
    (elements : List Value) :
    ∃ opened', Opens opened' ((s.openRun l v).1 ++ l) ∧
      Run.extend s steps ⟨opened, cells, elements, v⟩ =
        ⟨opened', (s.openRun l v).1.reverse ++ cells,
          ((s.openRun l v).1.map s.first).reverse ++ elements, (s.openRun l v).2⟩ := by
  fun_induction Store.openRun s l v generalizing steps opened cells elements with
  | case1 l c hc run ih =>
    have hlt := Store.unopened_cons_lt hc.1 hc.2
    obtain ⟨steps, rfl⟩ : ∃ n, steps = n + 1 := ⟨steps - 1, by omega⟩
    obtain ⟨opened', hopened', heq⟩ := ih (hv.of_reaches fun d hd => .rest hd)
      (show s.unopened (c :: l) ≤ steps by omega) (hopened.insert c) (c :: cells)
      (s.first c :: elements)
    refine ⟨opened', hopened'.congr (by simp [run, or_left_comm]), ?_⟩
    simp [Run.extend, hopened.contains_eq, hc.2, heq, run]
  | case2 l c hc =>
    have hmem : c ∈ l := by
      by_contra hmem
      exact hc ⟨hv c (.here c), hmem⟩
    refine ⟨opened, hopened, ?_⟩
    cases steps with
    | zero => rfl
    | succ steps => simp [Run.extend, hopened.contains_eq, hmem]
  | case3 l v hpair =>
    refine ⟨opened, hopened, ?_⟩
    cases steps with
    | zero => rfl
    | succ steps =>
      rw [Run.extend]
      split
      · next c hc => exact (hpair c hc).elim
      · rfl

theorem Emits.list {cells : List CellId} {tail : Value} {f : Value → String}
    (hv : s.Holds (.pair c)) (hrun : s.openRun l (.pair c) = (c :: cells, tail))
    (hfirst : ∀ d ∈ c :: cells,
      Emits s leaf (c :: cells ++ l) [.value (s.first d) room] (f (s.first d)))
    (htail : Emits s leaf (c :: cells ++ l) [.value tail room] (f tail)) :
    Emits s leaf l [.value (.pair c) (room + 1)]
      ("(" ++ " ".intercalate ((c :: cells).map fun d => f (s.first d)) ++
        (if tail.isNull then "" else " . " ++ f tail) ++ ")") := by
  intro out opened after hopened
  have hdisjoint : ∀ d ∈ c :: cells, d ∉ l := fun d hd =>
    Store.not_mem_of_mem_openRun (by rw [hrun]; exact hd)
  have hclosed : opened.contains c = false := by
    rw [hopened.contains_eq, decide_eq_false (hdisjoint c (List.mem_cons_self ..))]
  have hsize : s.unopened l ≤ s.cells.size :=
    s.unopened_nil ▸ Store.unopened_le_of_subset (List.nil_subset l)
  obtain ⟨opened₁, hopened₁, hextend⟩ := extend_eq_openRun hv hsize hopened [] []
  rw [hrun] at hopened₁ hextend
  have helements : Emits s leaf (c :: cells ++ l)
      (.value (s.first c) room :: restItems room (cells.map s.first))
      (" ".intercalate ((s.first c :: cells.map s.first).map f)) :=
    .elements (by simpa using hfirst)
  have hinside := (helements.append htail.ending).append (.text ")")
  obtain ⟨opened₂, hopened₂, hgoes⟩ := hinside (out ++ "(") opened₁
    (.close (c :: cells).reverse :: after) hopened₁
  refine ⟨_, hopened₂.close hdisjoint (c :: cells).reverse (fun d => List.mem_reverse), ?_⟩
  refine .next (by rintro d items ⟨⟩) ?_
  -- One step opens the run, the steps for what stands inside keep it open, one more closes it.
  have hstep : Walk.step s leaf ⟨out, opened, [.value (.pair c) (room + 1)] ++ after⟩ =
      ⟨out ++ "(", opened₁, (.value (s.first c) room :: restItems room (cells.map s.first) ++
        endItems room tail ++ [.text ")"]) ++ .close (c :: cells).reverse :: after⟩ := by
    rw [List.singleton_append, step, hclosed, hextend]
    simp [listItems_eq]
  rw [hstep]
  refine hgoes.trans (.next (by rintro d items ⟨⟩) ?_)
  simpa [step, String.append_assoc, Function.comp_def] using Goes.here _

/-- The walk writes a value as the recursive definition has it. -/
theorem emits_nestedText (hv : s.Holds v) (hroom : s.unopened l ≤ room) :
    Emits s leaf l [.value v room] (nestedText s leaf l v) := by
  -- Inside a list fewer pairs are left to open, as many as there is room for.
  fun_induction nestedText s leaf l v generalizing room with
  | case1 l c hc cells tail ihf =>
    rename_i iht
    have hlt : s.unopened (cells ++ l) < s.unopened l := Store.unopened_openRun_lt hc
    have hfirst : ∀ d ∈ cells, s.Holds (s.first d) := fun d hd =>
      hv.of_reaches fun e he => (Store.reaches_of_mem_openRun hd).trans (.first he)
    have htail : s.Holds tail := hv.of_reaches fun e he => Store.reaches_of_openRun_tail he
    obtain ⟨others, hcells⟩ : ∃ others, cells = c :: others :=
      ⟨_, congrArg Prod.fst (Store.openRun_pair hc)⟩
    have hrun : s.openRun l (.pair c) = (c :: others, tail) := Prod.ext hcells rfl
    clear_value cells tail
    subst hcells
    obtain ⟨room, rfl⟩ : ∃ n, room = n + 1 := ⟨room - 1, by omega⟩
    exact .list hv hrun (fun d hd => ihf d (hfirst d hd) (by omega)) (iht htail (by omega))
  | case2 l c hc =>
    apply Emits.opened
    by_contra hmem
    exact hc ⟨hv c (.here c), hmem⟩
  | case3 l v hpair => exact .atom (Value.isPair_eq_false_iff.mpr hpair)

/-- The walk that prints a value ends: after some number of steps nothing is left to print and no
pair is open. What it has written is what the printer prints, and this is the text of the recursive
definition behind the quote mark of a list. The text that `leaf` has for pairs may be any, as it is
never written. -/
theorem printing_ends (hv : s.Holds v) (style : PrintStyle)
    (hleaf : ∀ a, a.isPair = false → leaf a = atomText s style a) :
    ∃ n, ∃ w, (Walk.step s leaf)^[n] (.start s v) = w ∧ w.items = [] ∧ w.opened.isEmpty = true ∧
      w.out = s.print style v ∧
      w.out = (if v.isPair || v.isNull then "'" else "") ++ nestedText s leaf [] v := by
  have hemits : Emits s leaf [] [.value v s.cells.size] (nestedText s leaf [] v) :=
    emits_nestedText hv (Nat.le_of_eq s.unopened_nil)
  obtain ⟨opened, hopened, hgoes⟩ :=
    hemits (if v.isPair || v.isNull then "'" else "") ∅ [] opens_empty
  obtain ⟨n, hn⟩ := hgoes.exists_iterate
  refine ⟨n, _, hn, rfl, ?_, ?_, rfl⟩
  · rw [Std.HashSet.isEmpty_iff_forall_not_mem]
    exact fun c hc => List.not_mem_nil ((hopened c).mp hc)
  · calc _ = Walk.text s style ⟨_, opened, []⟩ := by rw [Walk.text, render]
      _ = (Walk.start s v).text s style := (hgoes.text_eq hleaf).symm
      _ = s.print style v := text_start s style v

/-- Two lists that stand in each other: a circle through a first slot, and one through rest
slots. -/
def knot : Store :=
  ⟨#[⟨.pair ⟨2⟩, .pair ⟨1⟩⟩, ⟨.int 5, .pair ⟨0⟩⟩, ⟨.pair ⟨0⟩, .pair ⟨3⟩⟩, ⟨.str "a", .nil⟩],
    #[], #[]⟩

/-- The texts of atoms, and one for pairs that is seen if it is written. -/
def marked (a : Value) : String := if a.isPair then "never" else atomText knot .written a

/-- Each of the two circles is cut where it closes. -/
theorem knot_is_printed :
    (knot.Holds (.pair ⟨0⟩) ∧ ∀ a, a.isPair = false → marked a = atomText knot .written a) ∧
      ∃ n w, (Walk.step knot marked)^[n] (.start knot (.pair ⟨0⟩)) = w ∧ w.items = [] ∧
        w.opened.isEmpty = true ∧ w.out = knot.print .written (.pair ⟨0⟩) ∧
        w.out = "'((... \"a\") 5 . ...)" := by
  have hholds : knot.Holds (.pair ⟨0⟩) :=
    Store.Intact.holds (show knot.Intact by decide) (by decide)
  have hleaf : ∀ a, a.isPair = false → marked a = atomText knot .written a := by
    intro a ha
    simp [marked, ha]
  have hnested : nestedText knot marked [] (.pair ⟨0⟩) = "((... \"a\") 5 . ...)" := by cbv
  obtain ⟨n, w, hn, hitems, hopened, hprint, hout⟩ := printing_ends hholds .written hleaf
  rw [hnested] at hout
  exact ⟨⟨hholds, hleaf⟩, n, w, hn, hitems, hopened, hprint, hout⟩

end Printer
end MiniScheme
