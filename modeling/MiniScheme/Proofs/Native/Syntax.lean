import MiniScheme.Proofs.Machine.Sequencing
/-! # How operands of special forms are checked

Parameters and bindings are described as what stands in the store: a list of distinct symbols, a list
of names with expressions. Each check of the forms either takes such a value apart or has failed at
once with bad syntax, the store unchanged. What native code raises by itself is told apart from the
errors of what it has evaluated.
-/
namespace MiniScheme

namespace Symbol

def Distinct (names : List Symbol) : Prop := (names.map Symbol.id).Nodup

theorem any_same_iff {names : List Symbol} {x : Symbol} :
    names.any (fun y => y.same x) = true ↔ x.id ∈ names.map Symbol.id := by
  simp only [List.any_eq_true, Symbol.same_iff, List.mem_map]

theorem distinct_middle {x : Symbol} {names reversed : List Symbol} :
    Distinct (names ++ x :: reversed) ↔ Distinct (x :: (names ++ reversed)) := by
  simp only [Distinct, List.map_append, List.map_cons]
  exact List.nodup_middle

theorem distinct_reverse {names : List Symbol} : Distinct names.reverse ↔ Distinct names := by
  rw [Distinct, List.map_reverse, List.nodup_reverse, Distinct]

theorem Distinct.not_mem {x : Symbol} {names reversed : List Symbol}
    (h : Distinct (x :: (names ++ reversed))) : x.id ∉ reversed.map Symbol.id := by
  simp only [Distinct, List.map_cons, List.map_append, List.nodup_cons, List.mem_append] at h
  exact fun hmem => h.1 (.inr hmem)

end Symbol

open MiniScheme.Symbol (Distinct any_same_iff distinct_middle)

namespace Store

variable {s : Store} {v : Value} {items : List Value}

private theorem spineWithin_of_improper {n steps : Nat} {last : Value} (h : s.EndsAfter v n last)
    (hlast : last ≠ .nil) (hsteps : n < steps) (reversed : List Value) :
    ∃ items, s.spineWithin steps reversed v = .improper items last := by
  obtain ⟨steps, rfl⟩ : ∃ k, steps = k + 1 := ⟨steps - 1, by omega⟩
  induction n generalizing v steps reversed with
  | zero =>
    obtain ⟨hv, hatom⟩ := h
    obtain rfl : v = last := Option.some.inj hv
    refine ⟨reversed.reverse, ?_⟩
    cases v <;> simp_all [spineWithin, Value.isPair]
  | succ n ih =>
    obtain ⟨c, rfl, hrest⟩ := tailAfter_succ_eq_some h.1
    obtain ⟨steps, rfl⟩ : ∃ k, steps = k + 1 := ⟨steps - 1, by omega⟩
    exact ih ⟨hrest, h.2⟩ (s.first c :: reversed) steps (by omega)

theorem spine_cases (hacyclic : s.Acyclic v) (hholds : s.Holds v) :
    (∃ items, s.Lists v items ∧ s.spine v = .proper items) ∨
      (∀ items, ¬ s.Lists v items) ∧ ∃ items tail, s.spine v = .improper items tail := by
  rcases ends_or_round hholds with ⟨n, hn, last, hends⟩ | ⟨before, round, c, hround, -, hc, hagain⟩
  · by_cases hlast : last = .nil
    · subst hlast
      obtain ⟨items, hspine, -, hlists⟩ := spineWithin_of_proper hends.1 (Nat.lt_succ_of_le hn) []
      exact .inl ⟨items, hlists, hspine⟩
    · obtain ⟨items, hspine⟩ :=
        spineWithin_of_improper hends hlast (Nat.lt_succ_of_le hn) []
      refine .inr ⟨fun items' hlists => ?_, items, last, hspine⟩
      exact not_proper (.inl ⟨n, last, hends, hlast⟩) _ hlists.1
  · obtain ⟨k, rfl⟩ := Nat.exists_eq_add_of_le' hround
    have hreach : s.Reaches (s.rest c) c := by
      have hbehind : s.tailAfter k (s.rest c) = some (.pair c) := by
        rw [tailAfter_add, hc] at hagain
        exact hagain
      exact reaches_of_tailAfter hbehind
    exact absurd (.inr hreach) (hacyclic c (reaches_of_tailAfter hc))

/-- The symbols `names` in a list that ends in the empty list or in the last of them. -/
inductive Parameters (s : Store) : Value → List Symbol → Prop
  | nil : Parameters s .nil []
  | rest (x : Symbol) : Parameters s (.symbol x) [x]
  | cons {c : CellId} {x : Symbol} {names : List Symbol} (hfirst : s.first c = .symbol x)
    (behind : Parameters s (s.rest c) names) : Parameters s (.pair c) (x :: names)

def IsFormals (s : Store) (v : Value) : Prop := ∃ names, s.Parameters v names ∧ Distinct names

/-- The value is a list of names, each with its expression. -/
def Binds (s : Store) (v : Value) (bindings : List (Symbol × Value)) : Prop :=
  ∃ items, s.Lists v items ∧
    List.Forall₂ (fun item b => s.Lists item [.symbol b.1, b.2]) items bindings

theorem Binds.unique {bindings bindings' : List (Symbol × Value)} (h : s.Binds v bindings)
    (h' : s.Binds v bindings') : bindings' = bindings := by
  obtain ⟨items, hitems, hall⟩ := h
  obtain ⟨items', hitems', hall'⟩ := h'
  obtain rfl := hitems.unique hitems'
  clear hitems hitems'
  induction hall generalizing bindings' with
  | nil =>
    cases hall'
    rfl
  | cons hitem _ ih =>
    cases hall' with
    | cons hitem' hall' =>
      have heq := hitem.unique hitem'
      simp only [List.cons.injEq, Value.symbol.injEq, and_true] at heq
      rw [Prod.ext heq.1 heq.2, ih hall']

private theorem Parameters.ends {names : List Symbol} (h : s.Parameters v names) :
    ∃ n last, s.EndsAfter v n last ∧ names.length ≤ n + 1 := by
  induction h with
  | nil => exact ⟨0, .nil, ⟨rfl, rfl⟩, Nat.zero_le _⟩
  | rest x => exact ⟨0, .symbol x, ⟨rfl, rfl⟩, Nat.le_refl _⟩
  | cons hfirst _ ih =>
    obtain ⟨n, last, hends, hlength⟩ := ih
    exact ⟨n + 1, last, hends, Nat.succ_le_succ hlength⟩

theorem Parameters.length_le {names : List Symbol} (h : s.Parameters v names) (hholds : s.Holds v) :
    names.length ≤ s.cells.size + 1 := by
  obtain ⟨n, last, hends, hlength⟩ := h.ends
  rcases ends_or_round hholds with ⟨n', hn, last', hends'⟩ | ⟨before, round, c, hround, -, hc, hagain⟩
  · obtain ⟨rfl, -⟩ := hends.unique hends'
    omega
  · have hgoes : s.GoesRound v := ⟨before, round, c, hround, hc, hagain⟩
    obtain ⟨d, hd⟩ := hgoes.pair n
    have hatom := hends.2
    rw [hends.1] at hd
    rw [Option.some.inj hd] at hatom
    simp [Value.isPair] at hatom

end Store

namespace Forms

variable {store : Store} {form : String} {v : Value}

/-- Parameters that are accepted are distinct symbols, distinct from those before. -/
theorem parameters_of_formalsWithin {steps : Nat} {reversed : List Symbol} {formals : Formals}
    (h : formalsWithin store form steps reversed v = .ok formals) (hreversed : Distinct reversed) :
    ∃ names, store.Parameters v names ∧ Distinct (names ++ reversed) := by
  induction steps generalizing reversed v with
  | zero => simp [formalsWithin] at h
  | succ steps ih =>
    unfold formalsWithin at h
    split at h
    · exact ⟨[], .nil, hreversed⟩
    · next x =>
      split at h
      · simp at h
      · next hx =>
        rw [any_same_iff] at hx
        exact ⟨[x], .rest x, List.nodup_cons.mpr ⟨hx, hreversed⟩⟩
    · next c =>
      split at h
      · next x hfirst =>
        split at h
        · simp at h
        · next hx =>
          rw [any_same_iff] at hx
          obtain ⟨names, hnames, hdistinct⟩ := ih h (List.nodup_cons.mpr ⟨hx, hreversed⟩)
          exact ⟨x :: names, .cons hfirst hnames, distinct_middle.mp hdistinct⟩
      · simp at h
    · simp at h

theorem formalsWithin_of_parameters {steps : Nat} {reversed names : List Symbol}
    (h : store.Parameters v names) (hdistinct : Distinct (names ++ reversed))
    (hsteps : names.length < steps) :
    ∃ formals, formalsWithin store form steps reversed v = .ok formals := by
  obtain ⟨steps, rfl⟩ : ∃ k, steps = k + 1 := ⟨steps - 1, by omega⟩
  induction h generalizing steps reversed with
  | nil => exact ⟨_, rfl⟩
  | rest x =>
    have hx : ¬ reversed.any (fun y => y.same x) = true := by
      rw [any_same_iff]
      exact (List.nodup_cons.mp hdistinct).1
    exact ⟨_, if_neg hx⟩
  | @cons c x names hfirst _ ih =>
    have hbefore : ¬ reversed.any (fun y => y.same x) = true := by
      rw [any_same_iff]
      exact Symbol.Distinct.not_mem hdistinct
    obtain ⟨steps, rfl⟩ : ∃ k, steps = k + 1 := ⟨steps - 1, by simp at hsteps; omega⟩
    obtain ⟨formals, hformals⟩ := ih (distinct_middle.mpr hdistinct) steps (by simpa using hsteps)
    refine ⟨formals, ?_⟩
    rw [formalsWithin]
    simp only [hfirst, if_neg hbefore]
    exact hformals

theorem formalsWithin_of_lists {steps : Nat} {reversed names : List Symbol} (form : String)
    (h : store.Lists v (names.map .symbol)) (hdistinct : Distinct (names ++ reversed))
    (hsteps : names.length < steps) :
    formalsWithin store form steps reversed v = .ok (.fixed (reversed.reverse ++ names)) := by
  obtain ⟨steps, rfl⟩ : ∃ k, steps = k + 1 := ⟨steps - 1, by omega⟩
  induction names generalizing v steps reversed with
  | nil =>
    obtain rfl : v = .nil := Store.lists_nil_iff.mp h
    simp [formalsWithin]
  | cons x names ih =>
    obtain ⟨c, rfl, hfirst, hrest⟩ := Store.lists_cons_iff.mp h
    have hbefore : ¬ reversed.any (fun y => y.same x) = true := by
      rw [any_same_iff]
      exact Symbol.Distinct.not_mem hdistinct
    obtain ⟨steps, rfl⟩ : ∃ k, steps = k + 1 := ⟨steps - 1, by simp at hsteps; omega⟩
    rw [formalsWithin]
    simp only [hfirst, if_neg hbefore]
    rw [ih hrest (distinct_middle.mpr hdistinct) steps (by simpa using hsteps)]
    simp

theorem formalsWithin_error {steps : Nat} {reversed : List Symbol} {e : EvalError}
    (h : formalsWithin store form steps reversed v = .error e) :
    ∃ reason, e = .badSyntax form reason := by
  induction steps generalizing reversed v with
  | zero =>
    simp only [formalsWithin, Except.error.injEq] at h
    exact ⟨_, h.symm⟩
  | succ steps ih =>
    unfold formalsWithin at h
    split at h
    · simp at h
    · split at h
      · exact ⟨_, (Except.error.inj h).symm⟩
      · simp at h
    · split at h
      · split at h
        · exact ⟨_, (Except.error.inj h).symm⟩
        · exact ih h
      · exact ⟨_, (Except.error.inj h).symm⟩
    · exact ⟨_, (Except.error.inj h).symm⟩

theorem parseFormals_cases (store : Store) (form : String) (v : Value) (hholds : store.Holds v) :
    (store.IsFormals v ∧ ∃ formals, parseFormals store form v = .ok formals) ∨
      ¬ store.IsFormals v ∧ ∃ reason, parseFormals store form v = .error (.badSyntax form reason) := by
  cases hparsed : parseFormals store form v with
  | ok formals =>
    obtain ⟨names, hnames, hdistinct⟩ := parameters_of_formalsWithin hparsed List.nodup_nil
    rw [List.append_nil] at hdistinct
    exact .inl ⟨⟨names, hnames, hdistinct⟩, formals, rfl⟩
  | error e =>
    obtain ⟨reason, rfl⟩ := formalsWithin_error hparsed
    refine .inr ⟨?_, reason, rfl⟩
    rintro ⟨names, hnames, hdistinct⟩
    have hlength := hnames.length_le hholds
    obtain ⟨formals, hformals⟩ : ∃ formals, parseFormals store form v = .ok formals :=
      formalsWithin_of_parameters hnames (by rwa [List.append_nil]) (by omega)
    simp [hformals] at hparsed

end Forms

def EvalError.IsSyntax (e : EvalError) : Prop := ∃ form reason, e.cause = .badSyntax form reason

namespace Interaction

variable {α β : Type} {P : EvalError → Prop}

/-- All errors that code raises itself are as `P` says, whatever the answers and the stores it is
given. The errors of what it asked for are handed on. -/
def Raises (P : EvalError → Prop) : Interaction α → Prop
  | done _ _ => True
  | fail e _ => P e
  | endless _ => True
  | eval _ _ _ _ resume =>
    (∀ e store, resume (.error e) store = .fail e store) ∧
      ∀ v store, (resume (.ok v) store).Raises P
  | call _ _ _ _ resume =>
    (∀ e store, resume (.error e) store = .fail e store) ∧
      ∀ v store, (resume (.ok v) store).Raises P
  | intern _ _ resume =>
    (∀ e store, resume (.error e) store = .fail e store) ∧
      ∀ x store, (resume (.ok x) store).Raises P
  | print _ _ resume => ∀ store, (resume store).Raises P
  | isSole _ _ _ resume => ∀ answer store, (resume answer store).Raises P

theorem Raises.bind {x : Interaction α} {f : α → Store → Interaction β} (hx : x.Raises P)
    (hf : ∀ a store, (f a store).Raises P) : (x.bind f).Raises P := by
  have hand {resume : Except EvalError Value → Store → Interaction α}
      (herror : ∀ e store, resume (.error e) store = .fail e store) (e : EvalError)
      (store : Store) : (resume (.error e) store).bind f = .fail e store := by
    rw [herror]
    rfl
  induction x with
  | done a store => exact hf a store
  | fail e store => exact hx
  | endless store => trivial
  | eval expr env held store resume ih =>
    exact ⟨hand hx.1, fun v store => ih (.ok v) store (hx.2 v store)⟩
  | call procedure args held store resume ih =>
    exact ⟨hand hx.1, fun v store => ih (.ok v) store (hx.2 v store)⟩
  | intern name store resume ih =>
    refine ⟨fun e store => ?_, fun x store => ih (.ok x) store (hx.2 x store)⟩
    dsimp only
    rw [hx.1]
    rfl
  | print text store resume ih => exact fun store => ih store (hx store)
  | isSole c held store resume ih => exact fun answer store => ih answer store (hx answer store)

/-- Run on this store, code has failed at once for bad syntax in `form`. -/
def Rejects (form : String) (store : Store) (x : Interaction α) : Prop :=
  ∃ reason, x = .fail (.badSyntax form reason) store

theorem Rejects.bind {form : String} {store : Store} {x : Interaction α}
    (h : x.Rejects form store) (f : α → Store → Interaction β) : (x.bind f).Rejects form store := by
  obtain ⟨reason, rfl⟩ := h
  exact ⟨reason, rfl⟩

/-- Run on this store, code has the expressions evaluated in `env`, one after the other, and fails
with `e` when it has all their values. Itself it changes nothing. -/
inductive FailsAfter (env : FrameId) (e : EvalError) : List Value → Store → Interaction α → Prop
  | now (store : Store) : FailsAfter env e [] store (.fail e store)
  | eval {expr : Value} {exprs : List Value} {held : Held} {store : Store}
    {resume : Except EvalError Value → Store → Interaction α}
    (herror : ∀ e store, resume (.error e) store = .fail e store)
    (hok : ∀ v store, FailsAfter env e exprs store (resume (.ok v) store)) :
    FailsAfter env e (expr :: exprs) store (.eval expr env held store resume)

theorem FailsAfter.bind {env : FrameId} {e : EvalError} {exprs : List Value} {store : Store}
    {x : Interaction α} (h : x.FailsAfter env e exprs store) (f : α → Store → Interaction β) :
    (x.bind f).FailsAfter env e exprs store := by
  induction h with
  | now store => exact .now store
  | eval herror _ ih =>
    refine .eval (fun e store => ?_) ih
    rw [herror]
    rfl

end Interaction

namespace Native

variable {α β : Type} {P : EvalError → Prop}

def Raises (P : EvalError → Prop) (x : Native α) : Prop := ∀ store, (x store).Raises P

theorem Raises.bind {x : Native α} {f : α → Native β} (hx : x.Raises P)
    (hf : ∀ a, (f a).Raises P) : (x >>= f).Raises P :=
  fun store => (hx store).bind hf

theorem raises_pure (a : α) : (pure a : Native α).Raises P := fun _ => trivial

private theorem raises_read (f : Store → α) : (Native.read f).Raises P := fun _ => trivial

theorem raises_change (f : Store → Store) : (Native.change f).Raises P := fun _ => trivial

theorem raises_update (f : Store → α × Store) : (Native.update f).Raises P := fun _ => trivial

theorem raises_eval (expr : Value) (env : FrameId) (held : Held) :
    (Native.eval expr env held).Raises P :=
  fun _ => ⟨fun _ _ => rfl, fun _ _ => trivial⟩

private theorem raises_isSole (c : ClosureId) (held : Held) : (Native.isSole c held).Raises P :=
  fun _ _ _ => trivial

private theorem elements_cases {store : Store} {v : Value} (hacyclic : store.Acyclic v)
    (hholds : store.Holds v) (improper : Value → Native (List Value)) :
    (∃ items, store.Lists v items ∧ elements v improper store = .done items store) ∨
      (∀ items, ¬ store.Lists v items) ∧ ∃ tail, elements v improper store = improper tail store := by
  rcases Store.spine_cases hacyclic hholds with ⟨items, hlists, hspine⟩ | ⟨hnone, items, tail, hspine⟩
  · refine .inl ⟨items, hlists, ?_⟩
    simp only [elements, read, Bind.bind, hspine, Interaction.bind, pure]
  · refine .inr ⟨hnone, tail, ?_⟩
    simp only [elements, read, Bind.bind, hspine, Interaction.bind]

end Native

namespace Forms

open Interaction (Rejects FailsAfter)

variable {P : EvalError → Prop} {store : Store}

theorem raises_sequence (held : Held) (env : FrameId) (body : List Value) :
    (sequence held env body).Raises P := by
  fun_induction sequence held env body with
  | case1 => exact Native.raises_pure _
  | case2 last => exact Native.raises_pure _
  | case3 expr next body ih => exact (Native.raises_eval expr env held).bind fun _ => ih

theorem raises_decide (decisive : Bool) (held : Held) (env : FrameId) (exprs : List Value) :
    (decide decisive held env exprs).Raises P := by
  fun_induction decide decisive held env exprs with
  | case1 => exact Native.raises_pure _
  | case2 last => exact Native.raises_pure _
  | case3 expr next exprs ih =>
    refine (Native.raises_eval expr env held).bind fun v => ?_
    split
    · exact Native.raises_pure _
    · exact ih

theorem raises_nameIfSole (v : Value) (name : String) (held : Held) :
    (nameIfSole v name held).Raises P := by
  unfold nameIfSole
  split
  · refine (Native.raises_read _).bind fun known => ?_
    split
    · refine (Native.raises_isSole _ held).bind fun sole => ?_
      split
      · exact Native.raises_change _
      · exact Native.raises_pure _
    · exact Native.raises_pure _
  · exact Native.raises_pure _

theorem rejects_badValue {α : Type} (form reason : String) (v : Value) :
    (badValue form reason v store : Interaction α).Rejects form store :=
  ⟨_, rfl⟩

theorem operandList_cases {operands : Value} (form : String) (hacyclic : store.Acyclic operands)
    (hholds : store.Holds operands) :
    (∃ items, store.Lists operands items ∧ operandList form operands store = .done items store) ∨
      (∀ items, ¬ store.Lists operands items) ∧
        (operandList form operands store).Rejects form store := by
  rcases Native.elements_cases hacyclic hholds
      (fun _ => bad form "operands must form a proper list") with hitems | ⟨hnone, tail, hbad⟩
  · exact .inl hitems
  · exact .inr ⟨hnone, _, hbad⟩

theorem makeClosure_cons (form : String) (name : Option String) (formals expr : Value)
    (body : List Value) (env : FrameId) (store : Store) :
    makeClosure form name formals (expr :: body) env store =
      (Interaction.ofExcept (parseFormals store form formals) store).bind fun parsed store =>
        .done (store.newClosure ⟨name, parsed, expr :: body, env⟩).1
          (store.newClosure ⟨name, parsed, expr :: body, env⟩).2 :=
  rfl

theorem makeClosure_cases (form : String) (name : Option String) {formals : Value}
    (hholds : store.Holds formals) (body : List Value) (env : FrameId) :
    ((body ≠ [] ∧ store.IsFormals formals) ∧
        ∃ c store', makeClosure form name formals body env store = .done c store') ∨
      ¬ (body ≠ [] ∧ store.IsFormals formals) ∧
        (makeClosure form name formals body env store).Rejects form store := by
  cases body with
  | nil => exact .inr ⟨by simp, _, rfl⟩
  | cons expr body =>
    rcases parseFormals_cases store form formals hholds with
      ⟨hformals, parsed, hparsed⟩ | ⟨hbad, reason, hparsed⟩
    · rw [makeClosure_cons, hparsed]
      exact .inl ⟨⟨by simp, hformals⟩, _, _, rfl⟩
    · refine .inr ⟨fun hgood => hbad hgood.2, reason, ?_⟩
      rw [makeClosure_cons, hparsed]
      rfl

theorem bindingsAfter_cases (form : String) {items : List Value}
    (hacyclic : ∀ item ∈ items, store.Acyclic item) (hholds : ∀ item ∈ items, store.Holds item)
    (reversed : List (Symbol × Value)) :
    (∃ bindings, List.Forall₂ (fun item b => store.Lists item [.symbol b.1, b.2]) items bindings ∧
        bindingsAfter form reversed items store = .done (reversed.reverse ++ bindings) store) ∨
      (∀ bindings : List (Symbol × Value),
          ¬ List.Forall₂ (fun item b => store.Lists item [.symbol b.1, b.2]) items bindings) ∧
        (bindingsAfter form reversed items store).Rejects form store := by
  induction items generalizing reversed with
  | nil => exact .inl ⟨[], .nil, by simp [bindingsAfter, pure]⟩
  | cons item items ih =>
    rcases Native.elements_cases (hacyclic item (by simp)) (hholds item (by simp))
        (fun _ => badValue form "binding must be (name expr): " item) with
      ⟨parts, hparts, helements⟩ | ⟨hnone, tail, hbad⟩
    · by_cases hshape : ∃ x init, parts = [.symbol x, init]
      · obtain ⟨x, init, rfl⟩ := hshape
        have hnext : bindingsAfter form reversed (item :: items) store =
            bindingsAfter form ((x, init) :: reversed) items store := by
          simp only [bindingsAfter, bind, helements, Interaction.bind]
        rw [hnext]
        rcases ih (fun i hi => hacyclic i (by simp [hi])) (fun i hi => hholds i (by simp [hi]))
            ((x, init) :: reversed) with ⟨bindings, hbindings, hdone⟩ | ⟨hnone, hrejects⟩
        · refine .inl ⟨(x, init) :: bindings, .cons hparts hbindings, ?_⟩
          rw [hdone]
          simp
        · refine .inr ⟨?_, hrejects⟩
          rintro bindings (_ | ⟨_, hbindings⟩)
          exact hnone _ hbindings
      · refine .inr ⟨?_, ?_⟩
        · rintro bindings (_ | ⟨hitem, _⟩)
          exact hshape ⟨_, _, hitem.unique hparts⟩
        · simp only [bindingsAfter, bind, helements, Interaction.bind]
          split
          · next x init => exact absurd ⟨x, init, rfl⟩ hshape
          · exact rejects_badValue form _ item
    · refine .inr ⟨?_, ?_⟩
      · rintro bindings (_ | ⟨hitem, _⟩)
        exact hnone _ hitem
      · simp only [bindingsAfter, bind, hbad]
        exact (rejects_badValue form _ item).bind _

private theorem any_name_iff {bindings : List (Symbol × Value)} {x : Symbol} :
    bindings.any (fun b => b.1.same x) = true ↔ x.id ∈ (bindings.map (·.1)).map Symbol.id := by
  rw [← any_same_iff, List.any_map]
  rfl

theorem letValues_cons {reversed bindings : List (Symbol × Value)} {x : Symbol} {init : Value}
    (hx : x.id ∉ (reversed.map (·.1)).map Symbol.id) (held : List Value) (env : FrameId) :
    letValues held env reversed ((x, init) :: bindings) =
      Native.eval init env { values := held } >>= fun v =>
        letValues (v :: held) env ((x, v) :: reversed) bindings := by
  rw [← any_name_iff] at hx
  rw [letValues, if_neg hx]

/-- The expressions of a `let` before a name that has come already are evaluated first. -/
theorem failsAfter_letValues {env : FrameId} {x : Symbol} {init : Value}
    {before behind reversed : List (Symbol × Value)} (held : List Value)
    (hdistinct : Distinct (before.map (·.1) ++ reversed.map (·.1)))
    (hx : x.id ∈ (before.map (·.1) ++ reversed.map (·.1)).map Symbol.id) (store : Store) :
    (letValues held env reversed (before ++ (x, init) :: behind) store).FailsAfter env
      (.badSyntax "let" ("duplicate binding: " ++ x.name)) (before.map (·.2)) store := by
  induction before generalizing reversed held store with
  | nil =>
    have hany := any_name_iff.mpr hx
    rw [List.nil_append, letValues, if_pos hany]
    exact .now store
  | cons b before ih =>
    obtain ⟨y, expr⟩ := b
    rw [List.cons_append, letValues_cons (Symbol.Distinct.not_mem hdistinct)]
    refine .eval (fun _ _ => rfl) fun v store => ?_
    have hnext : Distinct (before.map (·.1) ++ ((y, v) :: reversed).map (·.1)) :=
      distinct_middle.mpr hdistinct
    refine ih (v :: held) hnext ?_ store
    simp only [List.map_cons, List.cons_append, List.map_append, List.mem_cons,
      List.mem_append] at hx ⊢
    tauto

theorem raises_letValues {env : FrameId} {bindings reversed : List (Symbol × Value)}
    (held : List Value) (hdistinct : Distinct (bindings.map (·.1) ++ reversed.map (·.1))) :
    (letValues held env reversed bindings).Raises P := by
  induction bindings generalizing reversed held with
  | nil => exact Native.raises_pure _
  | cons b bindings ih =>
    obtain ⟨y, expr⟩ := b
    rw [letValues_cons (Symbol.Distinct.not_mem hdistinct)]
    exact (Native.raises_eval _ _ _).bind fun v => ih (v :: held) (distinct_middle.mpr hdistinct)

theorem raises_nestedFrames (held : List Value) (scope : FrameId)
    (bindings : List (Symbol × Value)) : (nestedFrames held scope bindings).Raises P := by
  fun_induction nestedFrames held scope bindings with
  | case1 => exact Native.raises_pure _
  | case2 held scope x init bindings ih =>
    refine (Native.raises_eval _ _ _).bind fun v => ?_
    refine (Native.raises_update _).bind fun inner => ?_
    exact (Native.raises_change _).bind fun _ => ih inner

theorem letForm_of_splitLet {operands : Value} (env : FrameId) {pairs : List (Symbol × Value)}
    {body : List Value} (h : splitLet "let" operands store = .done (pairs, body) store) :
    ∃ rest : List (Symbol × Value) → Native Outcome, (∀ values, (rest values).Raises P) ∧
      letForm operands env store =
        (letValues (pairs.map (·.2) ++ body) env [] pairs store).bind rest := by
  refine ⟨_, fun values => ?_, congrArg (fun x : Interaction _ => x.bind _) h⟩
  refine (Native.raises_update _).bind fun frame => ?_
  exact (Native.raises_change _).bind fun _ => raises_sequence _ frame body

theorem splitLet_cases (form : String) {operands : Value} (hacyclic : store.Acyclic operands)
    (hholds : store.Holds operands) :
    (∃ bindings body pairs, store.Lists operands (bindings :: body) ∧ body ≠ [] ∧
        store.Binds bindings pairs ∧ splitLet form operands store = .done (pairs, body) store) ∨
      (∀ bindings body pairs, store.Lists operands (bindings :: body) → body ≠ [] →
          ¬ store.Binds bindings pairs) ∧ (splitLet form operands store).Rejects form store := by
  rcases operandList_cases form hacyclic hholds with ⟨items, hlists, hitems⟩ | ⟨hnone, hrejects⟩
  · simp only [splitLet, bind, hitems, Interaction.bind]
    rcases items with _ | ⟨item, _ | ⟨expr, body⟩⟩
    · refine .inr ⟨fun bindings body pairs h => ?_, _, rfl⟩
      simpa using hlists.unique h
    · refine .inr ⟨fun bindings body pairs h hbody => ?_, _, rfl⟩
      exact absurd (List.cons.inj (hlists.unique h)).2 hbody
    · have hitem : item ∈ item :: expr :: body := by simp
      rcases Native.elements_cases (hlists.acyclic hacyclic hitem) (hlists.holds hholds hitem)
          (fun _ => bad form "bindings must form a proper list") with
        ⟨list, hlist, helements⟩ | ⟨hnone, tail, hbad⟩
      · simp only [helements, bindingList, Interaction.bind]
        rcases bindingsAfter_cases form
            (fun i hi => hlist.acyclic (hlists.acyclic hacyclic hitem) hi)
            (fun i hi => hlist.holds (hlists.holds hholds hitem) hi) [] with
          ⟨pairs, hpairs, hdone⟩ | ⟨hnone, hrejects⟩
        · rw [hdone]
          exact .inl ⟨item, expr :: body, pairs, hlists, by simp, ⟨list, hlist, hpairs⟩, rfl⟩
        · refine .inr ⟨fun bindings body pairs h hbody => ?_, hrejects.bind _⟩
          rintro ⟨list', hlist', hpairs⟩
          rw [(List.cons.inj (hlists.unique h)).1] at hlist'
          exact hnone pairs (hlist.unique hlist' ▸ hpairs)
      · refine .inr ⟨fun bindings body pairs h hbody => ?_, ?_⟩
        · rintro ⟨list, hlist, -⟩
          rw [(List.cons.inj (hlists.unique h)).1] at hlist
          exact hnone list hlist
        · simp only [hbad]
          exact ⟨_, rfl⟩
  · refine .inr ⟨fun bindings body pairs h => absurd h (hnone _), ?_⟩
    exact hrejects.bind _

end Forms

end MiniScheme
