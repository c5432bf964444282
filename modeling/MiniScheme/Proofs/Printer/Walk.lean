import MiniScheme.Printer
import MiniScheme.Proofs.Store.Tree
/-! # The walk of the printer, on trees

What the printer writes for a value that unfolds to a tree. All pairs along the rest slots of a
list are open from its first parenthesis to its last, so which elements are written out depends on
the pairs behind them too.
-/
namespace MiniScheme

namespace Tree

section Text

variable (s : Store) (style : PrintStyle)

mutual

/-- The list notation of a tree, every pair written out. -/
def text : Tree → String
  | atom v => Printer.atomText s style v
  | pair _ first rest => "(" ++ first.text ++ rest.restText

def restText : Tree → String
  | atom v => if v.isNull then ")" else " . " ++ Printer.atomText s style v ++ ")"
  | pair _ first rest => " " ++ first.text ++ rest.restText

end

def topText (t : Tree) : String :=
  match t with
  | atom v => if v.isNull then "'()" else Printer.atomText s style v
  | pair .. => "'" ++ t.text s style

end Text

/-- The pairs that are opened with a list, along the rest slots up to a pair of `l`. -/
def run (l : List CellId) : Tree → List CellId
  | atom _ => []
  | pair c _ rest => if c ∈ l then [] else c :: rest.run (c :: l)

def runElements (l : List CellId) : Tree → List Value
  | atom _ => []
  | pair c first rest => if c ∈ l then [] else first.value :: rest.runElements (c :: l)

def runTail (l : List CellId) : Tree → Value
  | atom v => v
  | pair c _ rest => if c ∈ l then .pair c else rest.runTail (c :: l)

section Cut

variable (s : Store) (style : PrintStyle)

mutual

/-- The list notation in which a pair of `l` or of a list around it is cut to `...`. -/
def cutText (l : List CellId) : Tree → String
  | atom v => Printer.atomText s style v
  | pair c first rest =>
    if c ∈ l then "..."
    else "(" ++ first.cutText (rest.run (c :: l) ++ c :: l) ++ rest.cutRestText (c :: l)

def cutRestText (l : List CellId) : Tree → String
  | atom v => if v.isNull then ")" else " . " ++ Printer.atomText s style v ++ ")"
  | pair c first rest =>
    if c ∈ l then " . ...)"
    else " " ++ first.cutText (rest.run (c :: l) ++ c :: l) ++ rest.cutRestText (c :: l)

end

end Cut

private theorem not_mem_of_mem_run {l : List CellId} {t : Tree} {d : CellId} (h : d ∈ t.run l) :
    d ∉ l := by
  induction t generalizing l with
  | atom v => simp [run] at h
  | pair c first rest _ ih =>
    rw [run] at h
    split at h
    · simp at h
    · next hc =>
      rcases List.mem_cons.mp h with rfl | h
      · exact hc
      · exact fun hd => ih h (List.mem_cons_of_mem _ hd)

end Tree

namespace Printer

open MiniScheme.Tree

variable {s : Store} {style : PrintStyle} {v : Value} {t : Tree} {l : List CellId}

def Opens (opened : Std.HashSet CellId) (l : List CellId) : Prop := ∀ c, c ∈ opened ↔ c ∈ l

theorem Opens.contains_eq {opened : Std.HashSet CellId} (h : Opens opened l) (c : CellId) :
    opened.contains c = decide (c ∈ l) := by
  by_cases hc : c ∈ l
  · rw [decide_eq_true hc]
    exact Std.HashSet.mem_iff_contains.mp ((h c).mpr hc)
  · rw [decide_eq_false hc, ← Bool.not_eq_true]
    exact fun hin => hc ((h c).mp (Std.HashSet.mem_iff_contains.mpr hin))

theorem Opens.insert {opened : Std.HashSet CellId} (h : Opens opened l) (c : CellId) :
    Opens (opened.insert c) (c :: l) := by
  intro d
  rw [Std.HashSet.mem_insert, List.mem_cons, h d, beq_iff_eq, eq_comm]

theorem Opens.congr {opened : Std.HashSet CellId} {l' : List CellId} (h : Opens opened l)
    (hl : ∀ c, c ∈ l ↔ c ∈ l') : Opens opened l' :=
  fun c => (h c).trans (hl c)

private theorem mem_foldl_erase (cells : List CellId) (opened : Std.HashSet CellId) (d : CellId) :
    d ∈ cells.foldl (·.erase ·) opened ↔ d ∈ opened ∧ d ∉ cells := by
  induction cells generalizing opened with
  | nil => simp
  | cons c cells ih =>
    rw [List.foldl_cons, ih, Std.HashSet.mem_erase, List.mem_cons, not_or]
    simp only [beq_eq_false_iff_ne, ne_eq]
    constructor
    · rintro ⟨⟨hcd, hd⟩, hcells⟩
      exact ⟨hd, fun h => hcd h.symm, hcells⟩
    · rintro ⟨hd, hcd, hcells⟩
      exact ⟨⟨fun h => hcd h.symm, hd⟩, hcells⟩

theorem Opens.close {opened : Std.HashSet CellId} {cells : List CellId}
    (h : Opens opened (cells ++ l)) (hdisjoint : ∀ c ∈ cells, c ∉ l) (order : List CellId)
    (horder : ∀ c, c ∈ order ↔ c ∈ cells) : Opens (order.foldl (·.erase ·) opened) l := by
  intro c
  rw [mem_foldl_erase, h c, List.mem_append, horder]
  constructor
  · rintro ⟨hc | hc, hnot⟩
    · exact absurd hc hnot
    · exact hc
  · exact fun hc => ⟨.inr hc, fun hin => hdisjoint c hin hc⟩

/-- The pair that opens a list may be counted to its run or to what was open before. -/
private theorem mem_run_cons (c : CellId) (cells l : List CellId) (d : CellId) :
    d ∈ c :: cells ++ l ↔ d ∈ cells ++ c :: l := by
  simp [or_left_comm]

theorem extend_eq (h : s.Unfolds v t) {steps : Nat} (hsteps : t.height ≤ steps)
    {opened : Std.HashSet CellId} (hopened : Opens opened l) (cells : List CellId)
    (elements : List Value) :
    ∃ opened', Opens opened' (t.run l ++ l) ∧
      Run.extend s steps ⟨opened, cells, elements, v⟩ =
        ⟨opened', (t.run l).reverse ++ cells, (t.runElements l).reverse ++ elements,
          t.runTail l⟩ := by
  induction h generalizing l steps opened cells elements with
  | atom v hv =>
    refine ⟨opened, hopened, ?_⟩
    cases steps with
    | zero => rfl
    | succ steps => cases v <;> first | rfl | simp [Value.isPair] at hv
  | @pair c first rest inside hfirst hrest _ ih =>
    cases steps with
    | zero => simp [height] at hsteps
    | succ steps =>
      rw [height] at hsteps
      have hheight : rest.height ≤ steps := by omega
      simp only [Run.extend, hopened.contains_eq c, run, runElements, runTail]
      by_cases hc : c ∈ l
      · exact ⟨opened, by simpa [hc] using hopened, by simp [hc]⟩
      · obtain ⟨opened', hopened', heq⟩ := ih hheight (hopened.insert c) (c :: cells)
          (s.first c :: elements)
        rw [if_neg hc, if_neg hc, if_neg hc, hfirst.value_eq]
        refine ⟨opened', hopened'.congr fun d => (mem_run_cons c _ l d).symm, ?_⟩
        simp [hc, heq]

/-- The items for the elements of a list after its first. -/
def restItems (room : Nat) (elements : List Value) : List Item :=
  elements.flatMap fun v => [.text " ", .value v room]

private theorem spread_append (room : Nat) (reversed : List Value) (v : Value) (after : List Item) :
    spread room (reversed ++ [v]) after =
      .value v room :: (restItems room reversed.reverse ++ after) := by
  induction reversed generalizing after with
  | nil => rfl
  | cons w reversed ih =>
    have hcons : spread room (w :: (reversed ++ [v])) after =
        spread room (reversed ++ [v]) (.text " " :: .value w room :: after) := by
      cases reversed <;> rfl
    rw [List.cons_append, hcons, ih]
    simp [restItems]

/-- The items for what follows the elements of a list. -/
def endItems (room : Nat) (tail : Value) : List Item :=
  if tail.isNull then [] else [.text " . ", .value tail room]

/-- What follows the first element of a list that is opened with the pairs of `l`. -/
def followItems (room : Nat) (l : List CellId) (t : Tree) : List Item :=
  restItems room (t.runElements l) ++ endItems room (t.runTail l) ++ [.text ")"]

theorem listItems_eq (room : Nat) (opened : Std.HashSet CellId) (cells : List CellId)
    (v : Value) (elements : List Value) (tail : Value) (after : List Item) :
    listItems room ⟨opened, cells, elements.reverse ++ [v], tail⟩ after =
      .value v room :: (restItems room elements ++ endItems room tail ++
        .text ")" :: .close cells :: after) := by
  rw [listItems, spread_append, List.reverse_reverse, List.append_assoc, endItems]
  split <;> rfl

theorem render_text (out : String) (opened : Std.HashSet CellId) (text : String)
    (items : List Item) :
    render s style out opened (.text text :: items) =
      render s style (out ++ text) opened items := by
  rw [render]

theorem render_atom (hv : v.isPair = false) (out : String) (opened : Std.HashSet CellId)
    (room : Nat) (items : List Item) :
    render s style out opened (.value v room :: items) =
      render s style (out ++ atomText s style v) opened items := by
  rw [render]
  rintro c rfl
  simp [Value.isPair] at hv

theorem render_opened {opened : Std.HashSet CellId} {c : CellId} (hc : opened.contains c = true)
    (out : String) (room : Nat) (items : List Item) :
    render s style out opened (.value (.pair c) room :: items) =
      render s style (out ++ "...") opened items := by
  cases room <;> rw [render, if_pos hc]

theorem render_list {opened : Std.HashSet CellId} {c : CellId} (hc : opened.contains c = false)
    (out : String) (room : Nat) (items : List Item) :
    render s style out opened (.value (.pair c) (room + 1) :: items) =
      render s style (out ++ "(") (Run.extend s s.cells.size ⟨opened, [], [], .pair c⟩).opened
        (listItems room (Run.extend s s.cells.size ⟨opened, [], [], .pair c⟩) items) := by
  rw [render, if_neg (by simp [hc])]

/-- While the pairs of `l` are open, the items append the text and leave the same pairs open. -/
def Writes (s : Store) (style : PrintStyle) (l : List CellId) (items : List Item)
    (text : String) : Prop :=
  ∀ (out : String) (opened : Std.HashSet CellId) (after : List Item), Opens opened l →
    ∃ opened', Opens opened' l ∧
      render s style out opened (items ++ after) = render s style (out ++ text) opened' after

private theorem Writes.append {items items' : List Item} {text text' : String}
    (h : Writes s style l items text) (h' : Writes s style l items' text') :
    Writes s style l (items ++ items') (text ++ text') := by
  intro out opened after hopened
  obtain ⟨opened₁, hopened₁, heq₁⟩ := h out opened (items' ++ after) hopened
  obtain ⟨opened₂, hopened₂, heq₂⟩ := h' (out ++ text) opened₁ after hopened₁
  exact ⟨opened₂, hopened₂, by rw [List.append_assoc, heq₁, heq₂, String.append_assoc]⟩

private theorem Writes.congr {items : List Item} {text : String} {l' : List CellId}
    (h : Writes s style l items text) (hl : ∀ c, c ∈ l ↔ c ∈ l') :
    Writes s style l' items text := by
  intro out opened after hopened
  obtain ⟨opened', hopened', heq⟩ := h out opened after (hopened.congr fun c => (hl c).symm)
  exact ⟨opened', hopened'.congr hl, heq⟩

private theorem Writes.text (text : String) : Writes s style l [.text text] text :=
  fun out opened after h => ⟨opened, h, render_text out opened text after⟩

private theorem Writes.atom (hv : v.isPair = false) (room : Nat) :
    Writes s style l [.value v room] (atomText s style v) :=
  fun out opened after h => ⟨opened, h, render_atom hv out opened room after⟩

private theorem Writes.opened {c : CellId} (hc : c ∈ l) (room : Nat) :
    Writes s style l [.value (.pair c) room] "..." :=
  fun out opened after h =>
    ⟨opened, h, render_opened (by rw [h.contains_eq, decide_eq_true hc]) out room after⟩

theorem Writes.list {c : CellId} {first rest : Tree} (h : s.Unfolds (.pair c) (.pair c first rest))
    (hsize : (Tree.pair c first rest).height ≤ s.cells.size) (hc : c ∉ l) {room : Nat}
    {firstText restText : String}
    (hfirst : Writes s style (rest.run (c :: l) ++ c :: l) [.value first.value room] firstText)
    (hrest : Writes s style (rest.run (c :: l) ++ c :: l) (followItems room (c :: l) rest)
      restText) :
    Writes s style l [.value (.pair c) (room + 1)] ("(" ++ firstText ++ restText) := by
  intro out opened after hopened
  obtain ⟨opened₁, hopened₁, hrun⟩ := extend_eq h hsize hopened [] []
  simp only [Tree.run, runElements, runTail, if_neg hc, List.append_nil, List.reverse_cons]
    at hopened₁ hrun
  have hset := mem_run_cons c (rest.run (c :: l)) l
  obtain ⟨opened₂, hopened₂, heq⟩ :=
    (hfirst.append hrest) (out ++ "(") opened₁
      (.close ((rest.run (c :: l)).reverse ++ [c]) :: after) (hopened₁.congr hset)
  refine ⟨_, ((hopened₂.congr fun d => (hset d).symm).close ?_
    ((rest.run (c :: l)).reverse ++ [c]) (by simp [or_comm])), ?_⟩
  · intro d hd
    apply not_mem_of_mem_run (t := .pair c first rest)
    rwa [Tree.run, if_neg hc]
  · calc render s style out opened (.value (.pair c) (room + 1) :: after)
        = render s style (out ++ "(") opened₁
            (([.value first.value room] ++ followItems room (c :: l) rest) ++
              .close ((rest.run (c :: l)).reverse ++ [c]) :: after) := by
          rw [render_list (by rw [hopened.contains_eq, decide_eq_false hc]), hrun, listItems_eq,
            followItems]
          simp
      _ = _ := by
          rw [heq, render]
          simp [String.append_assoc]

/-- The printer writes a value, and what follows an element of a list, as cut on the tree. -/
theorem writes_unfolded (h : s.Unfolds v t) {room : Nat} (hroom : t.height ≤ room)
    (hsize : t.height ≤ s.cells.size) (l : List CellId) :
    Writes s style l [.value v room] (t.cutText s style l) ∧
      Writes s style (t.run l ++ l) (followItems room l t) (t.cutRestText s style l) := by
  -- An element is written while the whole run is open, so both parts go in one induction.
  induction h generalizing room l with
  | atom v hv =>
    refine ⟨.atom hv room, ?_⟩
    rw [followItems, runElements, restItems, runTail, endItems, List.flatMap_nil, List.nil_append,
      cutRestText]
    by_cases hnull : v.isNull = true
    · rw [if_pos hnull, if_pos hnull]
      exact .text ")"
    · rw [if_neg hnull, if_neg hnull]
      exact ((Writes.text " . ").append (.atom hv room)).append (.text ")")
  | @pair c first rest inside hfirst hrest ihf ihr =>
    rw [height] at hroom
    have hunfolds : s.Unfolds (.pair c) (.pair c first rest) := .pair c inside hfirst hrest
    have hfsize : first.height ≤ s.cells.size := by rw [height] at hsize; omega
    have hrsize : rest.height ≤ s.cells.size := by rw [height] at hsize; omega
    obtain ⟨room, rfl⟩ : ∃ n, room = n + 1 := ⟨room - 1, by omega⟩
    rw [cutText, cutRestText, followItems, Tree.run, runElements, runTail]
    by_cases hc : c ∈ l
    · simp only [if_pos hc]
      exact ⟨.opened hc _, ((Writes.text " . ").append (.opened hc _)).append (.text ")")⟩
    · simp only [if_neg hc, hfirst.value_eq]
      constructor
      · apply Writes.list hunfolds hsize hc
        · rw [hfirst.value_eq]
          exact (ihf (by omega) hfsize _).1
        · exact (ihr (by omega) hrsize _).2
      · have hset := fun d => (mem_run_cons c (rest.run (c :: l)) l d).symm
        have hfroom : first.height ≤ room + 1 := by omega
        have hrroom : rest.height ≤ room + 1 := by omega
        have hf := (ihf hfroom hfsize (rest.run (c :: l) ++ c :: l)).1
        have hr := (ihr hrroom hrsize (c :: l)).2
        have hall := ((Writes.text " ").append (hf.congr hset)).append (hr.congr hset)
        simpa [restItems, followItems] using hall

theorem opens_empty : Opens ∅ [] :=
  fun c => by simp

theorem print_pair {c : CellId} (h : s.Unfolds (.pair c) t) :
    s.print style (.pair c) = "'" ++ t.cutText s style [] := by
  have hwrites : Writes s style [] [.value (.pair c) s.cells.size] (t.cutText s style []) :=
    (writes_unfolded h h.height_le h.height_le []).1
  obtain ⟨opened, -, heq⟩ := hwrites "'" ∅ [] opens_empty
  rw [Store.print, ← List.append_nil [_], heq, render]

theorem print_atom (hv : v.isPair = false) : s.print style v = (atom v).topText s style := by
  cases v <;> first | rfl | simp [Value.isPair] at hv

end Printer
end MiniScheme
