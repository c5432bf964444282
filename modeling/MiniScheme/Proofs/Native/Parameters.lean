import MiniScheme.Proofs.Store.NewFrame
/-! # Parameters

Parameters are followed pair by pair until they end or one of them is refused. Nothing bounds this but
the check for duplicates: each symbol that is accepted stands in a pair of the store and is none of
those before, so there are no more of them than there are pairs, and a list that goes round in a circle
comes back to a symbol that it has. What is accepted are distinct symbols in a list that ends in the
empty list or in one more of them, and a call binds just these.
-/
namespace MiniScheme

open MiniScheme.Symbol (Distinct any_same_iff)

namespace Store

variable {s : Store} {v last : Value} {items : List Value}

/-- The pairs from `v` on hold these items, and behind them comes `last`. -/
inductive Spans (s : Store) : Value → List Value → Value → Prop
  | here (last : Value) : Spans s last [] last
  | pair {c : CellId} {items : List Value} {last : Value} (behind : Spans s (s.rest c) items last) :
    Spans s (.pair c) (s.first c :: items) last

/-- The symbols in the first slots of the store, by identity. -/
def spelled (s : Store) : List Nat :=
  s.cells.toList.filterMap fun cell =>
    match cell.first with
    | .symbol x => some x.id
    | _ => none

private theorem length_spelled_le (s : Store) : s.spelled.length ≤ s.cells.size :=
  List.length_filterMap_le _ _

private theorem mem_spelled {c : CellId} {x : Symbol} (h : s.first c = .symbol x) :
    x.id ∈ s.spelled := by
  have hlt : c.index < s.cells.size := by
    by_contra hout
    simp [first, cell, hout] at h
  have hcell : s.cell c = s.cells[c.index] := by
    simp [cell, hlt]
  rw [first, hcell] at h
  exact List.mem_filterMap.mpr ⟨_, Array.getElem_mem_toList hlt, by rw [h]⟩

end Store

namespace Formals

/-- What comes behind the parameters that take one argument each. -/
def ending : Formals → Value
  | fixed _ => .nil
  | variadic _ rest => .symbol rest

end Formals

namespace Forms

variable {store : Store} {form : String} {v : Value} {reversed names : List Symbol}
  {outcome : Except EvalError Formals} {formals : Formals}

/-- Following parameters without any bound, from `v` on after those in `reversed`, comes to this
outcome. -/
inductive Follows (store : Store) (form : String) :
    List Symbol → Value → Except EvalError Formals → Prop
  | ends (reversed : List Symbol) : Follows store form reversed .nil (.ok (.fixed reversed.reverse))
  | rest {reversed : List Symbol} {x : Symbol} (hnew : x.id ∉ reversed.map Symbol.id) :
    Follows store form reversed (.symbol x) (.ok (.variadic reversed.reverse x))
  | restAgain {reversed : List Symbol} {x : Symbol} (hold : x.id ∈ reversed.map Symbol.id) :
    Follows store form reversed (.symbol x)
      (.error (.badSyntax form ("duplicate parameter: " ++ x.name)))
  | pair {reversed : List Symbol} {c : CellId} {x : Symbol} {outcome : Except EvalError Formals}
    (hfirst : store.first c = .symbol x) (hnew : x.id ∉ reversed.map Symbol.id)
    (behind : Follows store form (x :: reversed) (store.rest c) outcome) :
    Follows store form reversed (.pair c) outcome
  | again {reversed : List Symbol} {c : CellId} {x : Symbol} (hfirst : store.first c = .symbol x)
    (hold : x.id ∈ reversed.map Symbol.id) :
    Follows store form reversed (.pair c)
      (.error (.badSyntax form ("duplicate parameter: " ++ x.name)))
  | notSymbol {reversed : List Symbol} {c : CellId} (hfirst : ∀ x, store.first c ≠ .symbol x) :
    Follows store form reversed (.pair c)
      (.error (.badSyntax form ("parameter must be a symbol: " ++ store.text (store.first c))))
  | improper {reversed : List Symbol} {v : Value} (hnil : v ≠ .nil) (hsymbol : ∀ x, v ≠ .symbol x)
    (hpair : ∀ c, v ≠ .pair c) :
    Follows store form reversed v
      (.error (.badSyntax form ("parameter must be a symbol: " ++ store.text v)))

private theorem Follows.unique {outcome' : Except EvalError Formals}
    (h : Follows store form reversed v outcome) (h' : Follows store form reversed v outcome') :
    outcome' = outcome := by
  induction h with
  | ends reversed =>
    cases h' with
    | ends => rfl
    | improper hnil _ _ => exact absurd rfl hnil
  | rest hnew =>
    cases h' with
    | rest => rfl
    | restAgain hold => exact absurd hold hnew
    | improper _ hsymbol _ => exact absurd rfl (hsymbol _)
  | restAgain hold =>
    cases h' with
    | rest hnew => exact absurd hold hnew
    | restAgain => rfl
    | improper _ hsymbol _ => exact absurd rfl (hsymbol _)
  | pair hfirst hnew _ ih =>
    cases h' with
    | pair hfirst' _ behind =>
      obtain rfl := Value.symbol.inj (hfirst.symm.trans hfirst')
      exact ih behind
    | again hfirst' hold =>
      obtain rfl := Value.symbol.inj (hfirst.symm.trans hfirst')
      exact absurd hold hnew
    | notSymbol hnone => exact absurd hfirst (hnone _)
    | improper _ _ hpair => exact absurd rfl (hpair _)
  | again hfirst hold =>
    cases h' with
    | pair hfirst' hnew _ =>
      obtain rfl := Value.symbol.inj (hfirst.symm.trans hfirst')
      exact absurd hold hnew
    | again hfirst' _ =>
      obtain rfl := Value.symbol.inj (hfirst.symm.trans hfirst')
      rfl
    | notSymbol hnone => exact absurd hfirst (hnone _)
    | improper _ _ hpair => exact absurd rfl (hpair _)
  | notSymbol hnone =>
    cases h' with
    | pair hfirst _ _ => exact absurd hfirst (hnone _)
    | again hfirst _ => exact absurd hfirst (hnone _)
    | notSymbol => rfl
    | improper _ _ hpair => exact absurd rfl (hpair _)
  | improper hnil hsymbol hpair =>
    cases h' with
    | ends => exact absurd rfl hnil
    | rest => exact absurd rfl (hsymbol _)
    | restAgain => exact absurd rfl (hsymbol _)
    | pair => exact absurd rfl (hpair _)
    | again => exact absurd rfl (hpair _)
    | notSymbol => exact absurd rfl (hpair _)
    | improper => rfl

theorem follows_formalsWithin {steps : Nat} (hdistinct : Distinct reversed)
    (hspelled : reversed.map Symbol.id ⊆ store.spelled)
    (hsteps : store.cells.size < steps + reversed.length) :
    Follows store form reversed v (formalsWithin store form steps reversed v) := by
  induction steps generalizing reversed v with
  | zero =>
    have hle : (reversed.map Symbol.id).length ≤ store.spelled.length :=
      (List.subperm_of_subset hdistinct hspelled).length_le
    have hcells := store.length_spelled_le
    rw [List.length_map] at hle
    omega
  | succ steps ih =>
    unfold formalsWithin
    split
    · exact .ends reversed
    · next x =>
      split
      · next hold => exact .restAgain (any_same_iff.mp hold)
      · next hnew => exact .rest (mt any_same_iff.mpr hnew)
    · next c =>
      split
      · next x hfirst =>
        split
        · next hold => exact .again hfirst (any_same_iff.mp hold)
        · next hnew =>
          have hnew : x.id ∉ reversed.map Symbol.id := mt any_same_iff.mpr hnew
          refine .pair hfirst hnew (ih (List.nodup_cons.mpr ⟨hnew, hdistinct⟩) ?_ ?_)
          · exact List.cons_subset.mpr ⟨Store.mem_spelled hfirst, hspelled⟩
          · rw [List.length_cons]
            omega
      · next other hnone => exact .notSymbol hnone
    · next other hnil hsymbol hpair => exact .improper hnil hsymbol hpair

/-- Following the parameters always comes to an end, and this is what it comes to. -/
theorem follows_iff_parseFormals :
    Follows store form [] v outcome ↔ parseFormals store form v = outcome := by
  have hfollows : Follows store form [] v (parseFormals store form v) :=
    follows_formalsWithin List.nodup_nil (List.nil_subset _) (by simp)
  constructor
  · exact fun h => h.unique hfollows
  · rintro rfl
    exact hfollows

theorem Follows.spans (h : Follows store form reversed v outcome) (hok : outcome = .ok formals)
    (hdistinct : Distinct reversed) :
    ∃ names, formals.required = reversed.reverse ++ names ∧
      store.Spans v (names.map .symbol) formals.ending ∧ Distinct formals.names := by
  induction h with
  | ends reversed =>
    obtain rfl := Except.ok.inj hok
    refine ⟨[], (List.append_nil _).symm, .here _, ?_⟩
    simpa [Formals.names, Formals.required, Formals.rest?, Symbol.distinct_reverse] using hdistinct
  | @rest reversed x hnew =>
    obtain rfl := Except.ok.inj hok
    refine ⟨[], (List.append_nil _).symm, .here _, ?_⟩
    have hcons : Distinct (x :: reversed) := List.nodup_cons.mpr ⟨hnew, hdistinct⟩
    simpa [Formals.names, Formals.required, Formals.rest?] using Symbol.distinct_reverse.mpr hcons
  | restAgain => simp at hok
  | @pair reversed c x outcome hfirst hnew _ ih =>
    obtain ⟨names, hrequired, hspans, hnames⟩ :=
      ih hok (List.nodup_cons.mpr ⟨hnew, hdistinct⟩)
    refine ⟨x :: names, by simpa using hrequired, ?_, hnames⟩
    rw [List.map_cons, ← hfirst]
    exact .pair hspans
  | again => simp at hok
  | notSymbol => simp at hok
  | improper => simp at hok

private theorem not_mem_of_distinct {x : Symbol} {behind : List Symbol}
    (h : Distinct (reversed.reverse ++ x :: behind)) : x.id ∉ reversed.map Symbol.id := by
  obtain ⟨hx, -⟩ := List.nodup_cons.mp (Symbol.distinct_middle.mp h)
  intro hmem
  apply hx
  rw [List.map_append, List.map_reverse]
  exact List.mem_append_left _ (List.mem_reverse.mpr hmem)

theorem follows_of_spans (h : store.Spans v (names.map .symbol) formals.ending)
    (hrequired : formals.required = reversed.reverse ++ names) (hdistinct : Distinct formals.names) :
    Follows store form reversed v (.ok formals) := by
  induction names generalizing v reversed with
  | nil =>
    rw [List.append_nil] at hrequired
    cases formals with
    | fixed required =>
      obtain rfl : required = reversed.reverse := hrequired
      cases h
      exact .ends reversed
    | variadic required rest =>
      obtain rfl : required = reversed.reverse := hrequired
      cases h
      exact .rest (not_mem_of_distinct hdistinct)
  | cons x names ih =>
    generalize hitems : (x :: names).map Value.symbol = items at h
    cases h with
    | here => simp at hitems
    | @pair c items _ behind =>
      obtain ⟨hfirst, rfl⟩ := List.cons.inj hitems
      refine .pair hfirst.symm ?_ (ih behind (by simpa using hrequired))
      rw [Formals.names, hrequired, List.append_assoc, List.cons_append] at hdistinct
      exact not_mem_of_distinct hdistinct

/-- Parameters are followed to an end on every store, and accepted if they are distinct symbols in a
list that ends in the empty list or in one more of them; all else is bad syntax. A call of a closure
that has them, on any store, binds the arguments to them in a new frame inside of its environment, each
to the one in its place and the rest in a new list, and changes nothing else. Where the arguments are
not as many as the parameters, or with one for the rest too few, it says so and changes nothing. -/
theorem parameters_are_followed_and_bound (store : Store) (form : String) (v : Value) :
    (∀ outcome, Follows store form [] v outcome ↔ parseFormals store form v = outcome) ∧
    (∀ formals, parseFormals store form v = .ok formals ↔
      store.Spans v (formals.required.map .symbol) formals.ending ∧ Distinct formals.names) ∧
    (∀ e, parseFormals store form v = .error e → ∃ reason, e = .badSyntax form reason) ∧
    ∀ c : Closure, parseFormals store form v = .ok c.formals →
      ∀ (s : Store) (args : List Value),
      (c.formals.Takes args.length → (s.bind c args).1 = .ok ⟨s.frames.size⟩ ∧
        s.FrameAdded c.env c.formals args (s.bind c args).2) ∧
      (¬ c.formals.Takes args.length →
        s.bind c args = (.error (.arity c.displayName c.formals.arity args.length), s)) := by
  have haccepts (formals : Formals) : parseFormals store form v = .ok formals ↔
      store.Spans v (formals.required.map .symbol) formals.ending ∧ Distinct formals.names := by
    rw [← follows_iff_parseFormals]
    constructor
    · intro h
      obtain ⟨names, hrequired, hspans, hdistinct⟩ := h.spans rfl List.nodup_nil
      rw [List.reverse_nil, List.nil_append] at hrequired
      exact ⟨hrequired ▸ hspans, hdistinct⟩
    · rintro ⟨hspans, hdistinct⟩
      exact follows_of_spans hspans rfl hdistinct
  refine ⟨fun outcome => follows_iff_parseFormals, haccepts, fun e => formalsWithin_error, ?_⟩
  intro c hc s args
  rcases s.bind_cases c args ((haccepts c.formals).mp hc).2 with ⟨htakes, hbinds⟩ | ⟨hnot, hbind⟩
  · exact ⟨fun _ => hbinds, fun hnot => absurd htakes hnot⟩
  · exact ⟨fun htakes => absurd htakes hnot, fun _ => hbind⟩

/-- From pair 0 on the parameters `(x y . z)`, from pair 2 on `x` over and over. -/
def openAndRound : Store :=
  { cells := #[⟨.symbol ⟨0, "x"⟩, .pair ⟨1⟩⟩, ⟨.symbol ⟨1, "y"⟩, .symbol ⟨2, "z"⟩⟩,
      ⟨.symbol ⟨0, "x"⟩, .pair ⟨2⟩⟩]
    frames := #[⟨[], none⟩]
    closures := #[] }

/-- The circle is refused. Of four arguments `y` gets the second and `z` the last two; one is too
few. -/
theorem openAndRound_is_bound :
    Follows openAndRound "lambda" [] (.pair ⟨2⟩)
      (.error (.badSyntax "lambda" "duplicate parameter: x")) ∧
    parseFormals openAndRound "lambda" (.pair ⟨0⟩) =
      .ok (.variadic [⟨0, "x"⟩, ⟨1, "y"⟩] ⟨2, "z"⟩) ∧
    let c : Closure := ⟨some "f", .variadic [⟨0, "x"⟩, ⟨1, "y"⟩] ⟨2, "z"⟩, [.int 0], ⟨0⟩⟩
    let s := (openAndRound.bind c [.int 1, .int 2, .int 3, .int 4]).2
    (s.frame ⟨1⟩).get? ⟨1, "y"⟩ = some (.int 2) ∧
      (∃ v, (s.frame ⟨1⟩).get? ⟨2, "z"⟩ = some v ∧ s.ListsFrom 3 v [.int 3, .int 4]) ∧
      openAndRound.bind c [.int 1] = (.error (.arity "f" (.atLeast 2) 1), openAndRound) := by
  obtain ⟨hround, -⟩ := parameters_are_followed_and_bound openAndRound "lambda" (.pair ⟨2⟩)
  obtain ⟨-, -, -, hbind⟩ := parameters_are_followed_and_bound openAndRound "lambda" (.pair ⟨0⟩)
  refine ⟨(hround _).mpr rfl, rfl, ?_⟩
  intro c s
  obtain ⟨-, hadds⟩ :=
    (hbind c rfl openAndRound [.int 1, .int 2, .int 3, .int 4]).1 (by decide : 2 ≤ 4)
  obtain ⟨v, hv, hy⟩ := hadds.required 1 ⟨1, "y"⟩ rfl
  obtain rfl := Option.some.inj hv
  exact ⟨hy, hadds.rest ⟨2, "z"⟩ rfl,
    (hbind c rfl openAndRound [.int 1]).2 (by decide : ¬ 2 ≤ 1)⟩

end Forms
end MiniScheme
