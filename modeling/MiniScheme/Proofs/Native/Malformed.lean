import MiniScheme.Proofs.Native.Syntax
/-! # Malformed forms

The shape that the operands of a form must have is described here without reference to the rule of
the form. A rule fails at once, with bad syntax in the name of the form, on operands of any other
shape, and raises no such error of its own on operands of the right one. There is one exception: that
a name of a `let` comes twice is found only when its turn comes, after the expressions before it have
been evaluated.
-/
namespace MiniScheme

open MiniScheme.Symbol (Distinct distinct_middle)

theorem Store.exists_repeated {bindings : List (Symbol × Value)}
    (h : ¬ Distinct (bindings.map (·.1))) :
    ∃ before x init behind, bindings = before ++ (x, init) :: behind ∧
      Distinct (before.map (·.1)) ∧ x.id ∈ (before.map (·.1)).map Symbol.id := by
  induction bindings using List.reverseRecOn with
  | nil => exact absurd List.nodup_nil h
  | append_singleton bindings b ih =>
    by_cases hdistinct : Distinct (bindings.map (·.1))
    · refine ⟨bindings, b.1, b.2, [], rfl, hdistinct, ?_⟩
      apply Classical.byContradiction
      intro hnew
      apply h
      rw [List.map_append]
      apply distinct_middle.mpr
      rw [List.map_nil, List.append_nil]
      exact List.nodup_cons.mpr ⟨hnew, hdistinct⟩
    · obtain ⟨before, x, init, behind, rfl, hbefore, hx⟩ := ih hdistinct
      exact ⟨before, x, init, behind ++ [b], by simp, hbefore, hx⟩

/-- The special forms whose operands are all looked at before any of them is evaluated. -/
inductive Checked where
  | quote | conditional | define | assign | lambda | begin | letForm | letStar | conjunction
  | disjunction
deriving DecidableEq

namespace Checked

def name : Checked → String
  | quote => "quote"
  | conditional => "if"
  | define => "define"
  | assign => "set!"
  | lambda => "lambda"
  | begin => "begin"
  | letForm => "let"
  | letStar => "let*"
  | conjunction => "and"
  | disjunction => "or"

def rule : Checked → NativeForm
  | quote => Forms.quote
  | conditional => Forms.conditional
  | define => Forms.define
  | assign => Forms.assign
  | lambda => Forms.lambda
  | begin => Forms.begin
  | letForm => Forms.letForm
  | letStar => Forms.letStar
  | conjunction => Forms.conjunction
  | disjunction => Forms.disjunction

theorem mem_forms (form : Checked) : (form.name, form.rule) ∈ Standard.forms := by
  cases form <;> simp [Standard.forms, name, rule]

/-- Operands of the right number and shape. -/
def Fits (store : Store) : Checked → List Value → Prop
  | quote, items => items.length = 1
  | conditional, items => items.length = 2 ∨ items.length = 3
  | define, items =>
    (∃ x expr, items = [.symbol x, expr]) ∨
      ∃ signature body x, items = .pair signature :: body ∧ body ≠ [] ∧
        store.first signature = .symbol x ∧ store.IsFormals (store.rest signature)
  | assign, items => ∃ x expr, items = [.symbol x, expr]
  | lambda, items => ∃ formals body, items = formals :: body ∧ body ≠ [] ∧ store.IsFormals formals
  | begin, _ => True
  | letForm, items =>
    ∃ bindings body pairs, items = bindings :: body ∧ body ≠ [] ∧ store.Binds bindings pairs ∧
      Distinct (pairs.map (·.1))
  | letStar, items =>
    ∃ bindings body pairs, items = bindings :: body ∧ body ≠ [] ∧ store.Binds bindings pairs
  | conjunction, _ => True
  | disjunction, _ => True

/-- The operands form a proper list and fit the form. -/
def WellFormed (form : Checked) (store : Store) (operands : Value) : Prop :=
  ∃ items, store.Lists operands items ∧ form.Fits store items

/-- On this store the rule fails at once for operands that do not fit, and raises no error of syntax
itself for operands that do. -/
structure Guards (form : Checked) (store : Store) (operands : Value) (env : FrameId) : Prop where
  rejects : ¬ form.WellFormed store operands →
    (form.rule operands env store).Rejects form.name store
  raises : form.WellFormed store operands →
    (form.rule operands env store).Raises (fun e => ¬ e.IsSyntax)

variable {store : Store} {operands : Value} {env : FrameId}

private theorem guards_of_items (form : Checked) {body : List Value → Native Outcome}
    (hrule : form.rule operands env = Forms.operandList form.name operands >>= body)
    (hacyclic : store.Acyclic operands) (hholds : store.Holds operands)
    (hitems : ∀ items, store.Lists operands items →
      form.Fits store items ∧ (body items store).Raises (fun e => ¬ e.IsSyntax) ∨
        ¬ form.Fits store items ∧ (body items store).Rejects form.name store) :
    form.Guards store operands env := by
  rcases Forms.operandList_cases form.name hacyclic hholds with
    ⟨items, hlists, hdone⟩ | ⟨hnone, hrejects⟩
  · have heq : form.rule operands env store = body items store := by
      rw [hrule]
      simp only [bind, hdone, Interaction.bind]
    rcases hitems items hlists with ⟨hfits, hraises⟩ | ⟨hmisfit, hrejects⟩
    · exact ⟨fun hbad => absurd ⟨items, hlists, hfits⟩ hbad, fun _ => heq ▸ hraises⟩
    · refine ⟨fun _ => heq ▸ hrejects, ?_⟩
      rintro ⟨items', hlists', hfits⟩
      exact absurd (hlists.unique hlists' ▸ hfits) hmisfit
  · refine ⟨fun _ => ?_, ?_⟩
    · rw [hrule]
      exact hrejects.bind body
    · rintro ⟨items, hlists, -⟩
      exact absurd hlists (hnone items)

section

variable (hacyclic : store.Acyclic operands) (hholds : store.Holds operands)

include hacyclic hholds

private theorem guards_quote : quote.Guards store operands env := by
  refine guards_of_items quote rfl hacyclic hholds fun items _ => ?_
  match items with
  | [] => exact .inr ⟨by simp [Fits], _, rfl⟩
  | [datum] => exact .inl ⟨rfl, trivial⟩
  | _ :: _ :: _ => exact .inr ⟨by simp [Fits], _, rfl⟩

private theorem guards_conditional : conditional.Guards store operands env := by
  refine guards_of_items conditional rfl hacyclic hholds fun items _ => ?_
  match items with
  | [] => exact .inr ⟨by simp [Fits], _, rfl⟩
  | [_] => exact .inr ⟨by simp [Fits], _, rfl⟩
  | [test, consequent] =>
    refine .inl ⟨.inl rfl, (Native.raises_eval test env _).bind (fun v => ?_) store⟩
    split <;> exact Native.raises_pure _
  | [test, consequent, alternative] =>
    refine .inl ⟨.inr rfl, (Native.raises_eval test env _).bind (fun v => ?_) store⟩
    split <;> exact Native.raises_pure _
  | _ :: _ :: _ :: _ :: _ => exact .inr ⟨by simp [Fits], _, rfl⟩

private theorem guards_lambda : lambda.Guards store operands env := by
  refine guards_of_items lambda rfl hacyclic hholds fun items hlists => ?_
  match items with
  | [] => exact .inr ⟨by simp [Fits], _, rfl⟩
  | formals :: body =>
    have hheld : store.Holds formals := hlists.holds hholds (by simp)
    rcases Forms.makeClosure_cases "lambda" none hheld body env with
      ⟨⟨hbody, hformals⟩, c, store', hmade⟩ | ⟨hmisfit, hrejects⟩
    · refine .inl ⟨⟨formals, body, rfl, hbody, hformals⟩, ?_⟩
      simp only [bind, hmade, Interaction.bind]
      trivial
    · refine .inr ⟨?_, hrejects.bind _⟩
      rintro ⟨formals', body', heq, hbody, hformals⟩
      obtain ⟨rfl, rfl⟩ := List.cons.inj heq
      exact hmisfit ⟨hbody, hformals⟩

private theorem guards_assign : assign.Guards store operands env := by
  refine guards_of_items assign rfl hacyclic hholds fun items _ => ?_
  match items with
  | [] => exact .inr ⟨by simp [Fits], _, rfl⟩
  | [target] =>
    exact .inr ⟨by simp [Fits], "expected (set! name expr)", by cases target <;> rfl⟩
  | [target, expr] =>
    cases target with
    | symbol x =>
      refine .inl ⟨⟨x, expr, rfl⟩, (Native.raises_eval expr env _).bind (fun v store => ?_) store⟩
      unfold Store.assign
      split
      · next h =>
        split at h <;> cases h
        trivial
      · next e store' h =>
        split at h <;> cases h
        rintro ⟨form, reason, hcause⟩
        simp [EvalError.unboundVariable] at hcause
    | _ => exact .inr ⟨by simp [Fits], Forms.rejects_badValue _ _ _⟩
  | target :: _ :: _ :: _ =>
    exact .inr ⟨by simp [Fits], "expected (set! name expr)", by cases target <;> rfl⟩

private theorem guards_define : define.Guards store operands env := by
  refine guards_of_items define rfl hacyclic hholds fun items hlists => ?_
  match items with
  | [] => exact .inr ⟨by simp [Fits], _, rfl⟩
  | target :: body =>
    cases target with
    | symbol x =>
      match body with
      | [] => exact .inr ⟨by simp [Fits], _, rfl⟩
      | [expr] =>
        refine .inl ⟨.inl ⟨x, expr, rfl⟩, (Native.raises_eval expr env _).bind (fun v => ?_) store⟩
        refine (Forms.raises_nameIfSole v x.name _).bind fun _ => ?_
        exact (Native.raises_change _).bind fun _ => Native.raises_pure _
      | _ :: _ :: _ => exact .inr ⟨by simp [Fits], _, rfl⟩
    | pair signature =>
      have hheld : store.Holds (.pair signature) := hlists.holds hholds (by simp)
      cases hfirst : store.first signature with
      | symbol x =>
        rcases Forms.makeClosure_cases "define" (some x.name)
            (hheld.of_reaches fun _ hd => .rest hd) body env with
          ⟨⟨hbody, hformals⟩, c, store', hmade⟩ | ⟨hmisfit, hrejects⟩
        · refine .inl ⟨.inr ⟨signature, body, x, rfl, hbody, hfirst, hformals⟩, ?_⟩
          simp only [bind, Native.read, hfirst, Interaction.bind, hmade]
          trivial
        · refine .inr ⟨?_, ?_⟩
          · rintro (⟨y, expr, heq⟩ | ⟨signature', body', y, heq, hbody, -, hformals⟩)
            · simp at heq
            · obtain ⟨hsignature, rfl⟩ := List.cons.inj heq
              obtain rfl := Value.pair.inj hsignature
              exact hmisfit ⟨hbody, hformals⟩
          · simp only [bind, Native.read, hfirst, Interaction.bind]
            exact hrejects.bind _
      | _ =>
        refine .inr ⟨by simp [Fits, hfirst], ?_⟩
        simp only [bind, Native.read, hfirst, Interaction.bind]
        exact Forms.rejects_badValue _ _ _
    | _ => exact .inr ⟨by simp [Fits], Forms.rejects_badValue _ _ _⟩

private theorem guards_begin : begin.Guards store operands env :=
  guards_of_items begin rfl hacyclic hholds fun _ _ =>
    .inl ⟨trivial, Forms.raises_sequence _ _ _ store⟩

private theorem guards_conjunction : conjunction.Guards store operands env :=
  guards_of_items conjunction rfl hacyclic hholds fun _ _ =>
    .inl ⟨trivial, Forms.raises_decide _ _ _ _ store⟩

private theorem guards_disjunction : disjunction.Guards store operands env :=
  guards_of_items disjunction rfl hacyclic hholds fun _ _ =>
    .inl ⟨trivial, Forms.raises_decide _ _ _ _ store⟩

private theorem guards_letStar : letStar.Guards store operands env := by
  rcases Forms.splitLet_cases "let*" hacyclic hholds with
    ⟨bindings, body, pairs, hlists, hbody, hbinds, hsplit⟩ | ⟨hnone, hrejects⟩
  · have heq : letStar.rule operands env store = _ :=
      congrArg (fun x : Interaction _ => x.bind _) hsplit
    refine ⟨fun hbad => absurd ⟨_, hlists, bindings, body, pairs, rfl, hbody, hbinds⟩ hbad, fun _ => ?_⟩
    rw [heq]
    refine (Forms.raises_nestedFrames _ env pairs).bind (fun scope => ?_) store
    dsimp only
    split
    · exact (Native.raises_update _).bind fun scope => Forms.raises_sequence _ scope body
    · exact (Native.raises_pure _).bind fun scope => Forms.raises_sequence _ scope body
  · refine ⟨fun _ => hrejects.bind _, ?_⟩
    rintro ⟨items, hlists, bindings, body, pairs, rfl, hbody, hbinds⟩
    exact absurd hbinds (hnone bindings body pairs hlists hbody)

/-- The rule of `let`. Its bindings without regard to names are those of `let*`. -/
theorem let_cases :
    (¬ letStar.WellFormed store operands →
      (Forms.letForm operands env store).Rejects "let" store) ∧
    (letForm.WellFormed store operands →
      (Forms.letForm operands env store).Raises (fun e => ¬ e.IsSyntax)) ∧
    (letStar.WellFormed store operands → ¬ letForm.WellFormed store operands →
      ∃ bindings body before x init behind, store.Lists operands (bindings :: body) ∧
        store.Binds bindings (before ++ (x, init) :: behind) ∧ Distinct (before.map (·.1)) ∧
        x.id ∈ (before.map (·.1)).map Symbol.id ∧
        (Forms.letForm operands env store).FailsAfter env
          (.badSyntax "let" ("duplicate binding: " ++ x.name)) (before.map (·.2)) store) := by
  rcases Forms.splitLet_cases "let" hacyclic hholds with
    ⟨bindings, body, pairs, hlists, hbody, hbinds, hsplit⟩ | ⟨hnone, hrejects⟩
  · have hshape : letStar.WellFormed store operands :=
      ⟨_, hlists, bindings, body, pairs, rfl, hbody, hbinds⟩
    obtain ⟨rest, hrest, heq⟩ := Forms.letForm_of_splitLet (P := fun e => ¬ e.IsSyntax) env hsplit
    rw [heq]
    refine ⟨fun hbad => absurd hshape hbad, ?_, ?_⟩
    · rintro ⟨items, hlists', bindings', body', pairs', rfl, -, hbinds', hdistinct⟩
      obtain ⟨rfl, -⟩ := List.cons.inj (hlists.unique hlists')
      obtain rfl := hbinds.unique hbinds'
      refine (Forms.raises_letValues _ ?_ store).bind fun values => hrest values
      simpa using hdistinct
    · intro _ hrepeats
      have hsame : ¬ Distinct (pairs.map (·.1)) := fun hdistinct =>
        hrepeats ⟨_, hlists, bindings, body, pairs, rfl, hbody, hbinds, hdistinct⟩
      obtain ⟨before, x, init, behind, rfl, hbefore, hx⟩ := Store.exists_repeated hsame
      refine ⟨bindings, body, before, x, init, behind, hlists, hbinds, hbefore, hx, ?_⟩
      refine Interaction.FailsAfter.bind (Forms.failsAfter_letValues _ ?_ ?_ store) rest
      · simpa using hbefore
      · simpa using hx
  · refine ⟨fun _ => hrejects.bind _, ?_, ?_⟩
    · rintro ⟨items, hlists, bindings, body, pairs, rfl, hbody, hbinds, -⟩
      exact absurd hbinds (hnone bindings body pairs hlists hbody)
    · rintro ⟨items, hlists, bindings, body, pairs, rfl, hbody, hbinds⟩
      exact absurd hbinds (hnone bindings body pairs hlists hbody)

/-- Every form is on its guard, but for the names of `let`. -/
theorem guards (form : Checked)
    (hnames : form = letForm → letStar.WellFormed store operands →
      letForm.WellFormed store operands) : form.Guards store operands env := by
  cases form with
  | quote => exact guards_quote hacyclic hholds
  | conditional => exact guards_conditional hacyclic hholds
  | define => exact guards_define hacyclic hholds
  | assign => exact guards_assign hacyclic hholds
  | lambda => exact guards_lambda hacyclic hholds
  | begin => exact guards_begin hacyclic hholds
  | letForm =>
    obtain ⟨hrejects, hraises, -⟩ := let_cases hacyclic hholds
    exact ⟨fun hbad => hrejects fun hshape => hbad (hnames rfl hshape), hraises⟩
  | letStar => exact guards_letStar hacyclic hholds
  | conjunction => exact guards_conjunction hacyclic hholds
  | disjunction => exact guards_disjunction hacyclic hholds

end

end Checked

theorem Interaction.Rejects.step_eq {m : Machine} {program : Native Outcome} {form : String}
    (h : (program m.store).Rejects form m.store) :
    ∃ reason, ∀ setting ws context,
      (⟨m, .native program context, ws⟩ : State).step setting =
        State.fail m ws (.badSyntax form reason) := by
  obtain ⟨reason, hprogram⟩ := h
  refine ⟨reason, fun setting ws context => ?_⟩
  simp only [State.step, State.runNative, hprogram]

/-- Operands that are not of the right shape are rejected in one step, which leaves the machine as it
was, for bad syntax in the name of the form; this does not go for a `let` where only a name comes
twice. On operands of the right shape no error of syntax is raised but by what is evaluated. A `let`
with a name that comes twice has the expressions before the second one evaluated in order, then
fails for bad syntax, if none of them has failed. -/
theorem malformed_forms_are_rejected (form : Checked) (m : Machine) (operands : Value)
    (env : FrameId) (hacyclic : m.store.Acyclic operands) (hholds : m.store.Holds operands) :
    (¬ form.WellFormed m.store operands →
      (form = .letForm → ¬ Checked.letStar.WellFormed m.store operands) →
      ∃ reason, ∀ setting ws context,
        (⟨m, .native (form.rule operands env) context, ws⟩ : State).step setting =
          State.fail m ws (.badSyntax form.name reason)) ∧
    (form.WellFormed m.store operands →
      (form.rule operands env m.store).Raises (fun e => ¬ e.IsSyntax)) ∧
    (Checked.letStar.WellFormed m.store operands →
      ¬ Checked.letForm.WellFormed m.store operands →
      ∃ bindings body before x init behind, m.store.Lists operands (bindings :: body) ∧
        m.store.Binds bindings (before ++ (x, init) :: behind) ∧ Distinct (before.map (·.1)) ∧
        x.id ∈ (before.map (·.1)).map Symbol.id ∧
        (Forms.letForm operands env m.store).FailsAfter env
          (.badSyntax "let" ("duplicate binding: " ++ x.name)) (before.map (·.2)) m.store) := by
  refine ⟨fun hbad hshape => ?_, fun hgood => ?_, ?_⟩
  · have hguards : form.Guards m.store operands env :=
      Checked.guards hacyclic hholds form fun hlet hstar => absurd hstar (hshape hlet)
    exact (hguards.rejects hbad).step_eq
  · have hguards : form.Guards m.store operands env :=
      Checked.guards hacyclic hholds form fun hlet _ => hlet ▸ hgood
    exact hguards.raises hgood
  · exact (Checked.let_cases hacyclic hholds).2.2

/-- From pair 0 on the operands of `(let ((x (f)) (x 2)) x)`, from pair 9 on those of
`(lambda (x x) 1)`. -/
def repeatedNames : Machine where
  store :=
    { cells := #[
        ⟨.pair ⟨1⟩, .pair ⟨8⟩⟩, ⟨.pair ⟨2⟩, .pair ⟨5⟩⟩, ⟨.symbol ⟨0, "x"⟩, .pair ⟨3⟩⟩,
        ⟨.pair ⟨4⟩, .nil⟩, ⟨.symbol ⟨1, "f"⟩, .nil⟩, ⟨.pair ⟨6⟩, .nil⟩,
        ⟨.symbol ⟨0, "x"⟩, .pair ⟨7⟩⟩, ⟨.int 2, .nil⟩, ⟨.symbol ⟨0, "x"⟩, .nil⟩,
        ⟨.pair ⟨10⟩, .pair ⟨12⟩⟩, ⟨.symbol ⟨0, "x"⟩, .pair ⟨11⟩⟩, ⟨.symbol ⟨0, "x"⟩, .nil⟩,
        ⟨.int 1, .nil⟩]
      frames := #[⟨[], none⟩]
      closures := #[] }
  symbols := SymbolTable.empty
  calls := CallStack.empty
  depth := 0
  counters := none
  output := .silent

private theorem unfolds_repeatedNames :
    (∃ t, repeatedNames.store.Unfolds (.pair ⟨0⟩) t) ∧
      ∃ t, repeatedNames.store.Unfolds (.pair ⟨9⟩) t :=
  ⟨⟨_, .pair ⟨0⟩ (by decide)
      (.pair ⟨1⟩ (by decide)
        (.pair ⟨2⟩ (by decide) (.atom _ rfl)
          (.pair ⟨3⟩ (by decide) (.pair ⟨4⟩ (by decide) (.atom _ rfl) (.atom _ rfl)) (.atom _ rfl)))
        (.pair ⟨5⟩ (by decide)
          (.pair ⟨6⟩ (by decide) (.atom _ rfl) (.pair ⟨7⟩ (by decide) (.atom _ rfl) (.atom _ rfl)))
          (.atom _ rfl)))
      (.pair ⟨8⟩ (by decide) (.atom _ rfl) (.atom _ rfl))⟩,
    ⟨_, .pair ⟨9⟩ (by decide)
      (.pair ⟨10⟩ (by decide) (.atom _ rfl) (.pair ⟨11⟩ (by decide) (.atom _ rfl) (.atom _ rfl)))
      (.pair ⟨12⟩ (by decide) (.atom _ rfl) (.atom _ rfl))⟩⟩

private theorem lists_repeatedNames :
    repeatedNames.store.Lists (.pair ⟨0⟩) [.pair ⟨1⟩, .symbol ⟨0, "x"⟩] ∧
      repeatedNames.store.Lists (.pair ⟨9⟩) [.pair ⟨10⟩, .int 1] := by
  simp only [Store.lists_cons_iff, Store.lists_nil_iff]
  exact ⟨⟨⟨0⟩, rfl, rfl, ⟨8⟩, rfl, rfl, rfl⟩, ⟨9⟩, rfl, rfl, ⟨12⟩, rfl, rfl, rfl⟩

private theorem binds_repeatedNames :
    repeatedNames.store.Binds (.pair ⟨1⟩) [(⟨0, "x"⟩, .pair ⟨4⟩), (⟨0, "x"⟩, .int 2)] := by
  refine ⟨[.pair ⟨2⟩, .pair ⟨6⟩], ?_, .cons ?_ (.cons ?_ .nil)⟩
  all_goals simp only [Store.lists_cons_iff, Store.lists_nil_iff]
  · exact ⟨⟨1⟩, rfl, rfl, ⟨5⟩, rfl, rfl, rfl⟩
  · exact ⟨⟨2⟩, rfl, rfl, ⟨3⟩, rfl, rfl, rfl⟩
  · exact ⟨⟨6⟩, rfl, rfl, ⟨7⟩, rfl, rfl, rfl⟩

/-- The `lambda` fails before anything is done, the `let` only after `(f)`. -/
theorem repeatedNames_are_rejected :
    (∃ reason, ∀ setting ws context,
      (⟨repeatedNames, .native (Forms.lambda (.pair ⟨9⟩) ⟨0⟩) context, ws⟩ : State).step setting =
        State.fail repeatedNames ws (.badSyntax "lambda" reason)) ∧
    (Forms.letForm (.pair ⟨0⟩) ⟨0⟩ repeatedNames.store).FailsAfter ⟨0⟩
      (.badSyntax "let" "duplicate binding: x") [.pair ⟨4⟩] repeatedNames.store := by
  obtain ⟨⟨t, ht⟩, t', ht'⟩ := unfolds_repeatedNames
  obtain ⟨hlet, hlambda⟩ := lists_repeatedNames
  constructor
  · refine (malformed_forms_are_rejected .lambda repeatedNames (.pair ⟨9⟩) ⟨0⟩ ht'.acyclic
      ht'.holds).1 ?_ (by simp)
    rintro ⟨items, hlists, formals, body, rfl, -, names, hnames, hdistinct⟩
    obtain ⟨rfl, -⟩ := List.cons.inj (hlambda.unique hlists)
    -- The parameters are `x`, twice.
    obtain _ | _ | ⟨hfirst, hbehind⟩ := hnames
    obtain rfl := Value.symbol.inj (hfirst.symm.trans rfl)
    obtain _ | _ | ⟨hfirst', hbehind'⟩ := hbehind
    obtain rfl := Value.symbol.inj (hfirst'.symm.trans rfl)
    simp [Distinct] at hdistinct
  · have hstar : Checked.letStar.WellFormed repeatedNames.store (.pair ⟨0⟩) :=
      ⟨_, hlet, _, _, _, rfl, by simp, binds_repeatedNames⟩
    have hrepeats : ¬ Checked.letForm.WellFormed repeatedNames.store (.pair ⟨0⟩) := by
      rintro ⟨items, hlists, bindings, body, pairs, rfl, -, hbinds, hdistinct⟩
      obtain ⟨rfl, -⟩ := List.cons.inj (hlet.unique hlists)
      rw [binds_repeatedNames.unique hbinds] at hdistinct
      simp [Distinct] at hdistinct
    obtain ⟨bindings, body, before, x, init, behind, hlists, hbinds, -, hx, hfails⟩ :=
      (malformed_forms_are_rejected .letForm repeatedNames (.pair ⟨0⟩) ⟨0⟩ ht.acyclic
        ht.holds).2.2 hstar hrepeats
    obtain ⟨rfl, -⟩ := List.cons.inj (hlet.unique hlists)
    have heq := binds_repeatedNames.unique hbinds
    rcases before with _ | ⟨b, _ | ⟨_, _⟩⟩
    · simp at hx
    · simp only [List.cons_append, List.nil_append, List.cons.injEq, Prod.mk.injEq] at heq
      obtain ⟨rfl, ⟨rfl, rfl⟩, rfl⟩ := heq
      exact hfails
    · simp at heq

end MiniScheme
