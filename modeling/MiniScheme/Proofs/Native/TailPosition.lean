import MiniScheme.Proofs.Native.Forms
import MiniScheme.Proofs.Native.Syntax
/-! # Tail position

A form ends in one of its own expressions: the branch that `if` takes, the last expression of a
`begin`, of the body of a `let`, of a clause of a `cond`, the last operand of `and` and `or`. This
expression is left to be evaluated in place of the form. What the form asks to be evaluated while it
is still there are expressions that stand before it.
-/
namespace MiniScheme

variable {α β : Type} {seen : Store → Prop} {inner inner' : Value → Prop}
  {post post' : α → Store → Prop}

namespace Store

variable {s : Store} {v : Value}

theorem lists_of_spineWithin {steps : Nat} {reversed items : List Value}
    (h : s.spineWithin steps reversed v = .proper items) :
    ∃ behind, items = reversed.reverse ++ behind ∧ s.Lists v behind := by
  induction steps generalizing v reversed with
  | zero => simp [spineWithin] at h
  | succ steps ih =>
    cases v with
    | nil => exact ⟨[], by simpa [spineWithin] using h.symm, lists_nil_iff.mpr rfl⟩
    | pair c =>
      obtain ⟨behind, rfl, hbehind⟩ := ih h
      exact ⟨s.first c :: behind, by simp, lists_cons_iff.mpr ⟨c, rfl, rfl, hbehind⟩⟩
    | _ => simp [spineWithin] at h

theorem lists_of_spine {items : List Value} (h : s.spine v = .proper items) : s.Lists v items := by
  obtain ⟨behind, rfl, hlists⟩ := lists_of_spineWithin h
  exact hlists

end Store

namespace Interaction

/-- As long as it is resumed with stores that are `seen`, code has expressions of the kind `inner`
evaluated and no others, calls nothing, and ends with a result and a store as `post` says. -/
def Asks (seen : Store → Prop) (inner : Value → Prop) (post : α → Store → Prop) :
    Interaction α → Prop
  | done a store => post a store
  | fail _ _ => True
  | endless _ => True
  | eval expr _ _ _ resume =>
    inner expr ∧ ∀ answer store, seen store → (resume answer store).Asks seen inner post
  | call _ _ _ _ _ => False
  | intern _ _ resume => ∀ answer store, seen store → (resume answer store).Asks seen inner post
  | print _ _ resume => ∀ store, seen store → (resume store).Asks seen inner post
  | isSole _ _ _ resume => ∀ answer store, seen store → (resume answer store).Asks seen inner post

private theorem Asks.bind {x : Interaction α} {f : α → Store → Interaction β}
    {post' : β → Store → Prop}
    (hx : x.Asks seen inner post) (hf : ∀ a store, post a store → (f a store).Asks seen inner post') :
    (x.bind f).Asks seen inner post' := by
  induction x with
  | done a store => exact hf a store hx
  | fail e store => trivial
  | endless store => trivial
  | eval expr env held store resume ih =>
    exact ⟨hx.1, fun answer store hstore => ih answer store (hx.2 answer store hstore)⟩
  | call procedure args held store resume ih => exact hx.elim
  | intern name store resume ih =>
    exact fun answer store hstore => ih answer store (hx answer store hstore)
  | print text store resume ih => exact fun store hstore => ih store (hx store hstore)
  | isSole c held store resume ih =>
    exact fun answer store hstore => ih answer store (hx answer store hstore)

theorem Asks.mono {x : Interaction α} (hx : x.Asks seen inner post)
    (hinner : ∀ expr, inner expr → inner' expr) (hpost : ∀ a store, post a store → post' a store) :
    x.Asks seen inner' post' := by
  induction x with
  | done a store => exact hpost a store hx
  | fail e store => trivial
  | endless store => trivial
  | eval expr env held store resume ih =>
    exact ⟨hinner expr hx.1, fun answer store hstore => ih answer store (hx.2 answer store hstore)⟩
  | call procedure args held store resume ih => exact hx.elim
  | intern name store resume ih =>
    exact fun answer store hstore => ih answer store (hx answer store hstore)
  | print text store resume ih => exact fun store hstore => ih store (hx store hstore)
  | isSole c held store resume ih =>
    exact fun answer store hstore => ih answer store (hx answer store hstore)

end Interaction

open Interaction (Asks)

/-- A form ends with a value of its own, as `alone` says, or leaves an expression as `last` says. -/
def Outcome.Leaves (last alone : Value → Prop) : Outcome → Store → Prop
  | .value v, _ => alone v
  | .tail expr _, _ => last expr

namespace Native

def anything (_ : α) (_ : Store) : Prop := True

private theorem asks_eval_bind {expr : Value} {env : FrameId} {held : Held} {f : Value → Native α}
    (hexpr : inner expr) (hf : ∀ v store, seen store → (f v store).Asks seen inner post)
    (store : Store) :
    ((Native.eval expr env held >>= f) store).Asks seen inner post := by
  have heval : (Native.eval expr env held store).Asks seen inner fun _ => seen := by
    refine ⟨hexpr, ?_⟩
    intro answer store hstore
    cases answer with
    | error e => trivial
    | ok v => exact hstore
  exact heval.bind hf

theorem asks_elements {v : Value} {improper : Value → Native (List Value)} {store : Store}
    (himproper : ∀ tail, (improper tail store).Asks seen inner
      fun items s => s = store ∧ store.Lists v items) :
    (elements v improper store).Asks seen inner fun items s => s = store ∧ store.Lists v items := by
  simp only [elements, Native.read, bind, Interaction.bind]
  cases hspine : store.spine v with
  | proper items => exact ⟨rfl, Store.lists_of_spine hspine⟩
  | improper items tail => exact himproper tail
  | circular => trivial

end Native

open Native

namespace Forms

private theorem asks_operandList (form : String) (operands : Value) (store : Store) :
    (operandList form operands store).Asks seen inner fun items s =>
      s = store ∧ store.Lists operands items :=
  asks_elements fun _ => trivial

private theorem asks_sequence (held : Held) (env : FrameId) (body : List Value) (store : Store) :
    (sequence held env body store).Asks seen (· ∈ body.dropLast)
      (Outcome.Leaves (body.getLast? = some ·) (fun v => body = [] ∧ v = .unspecified)) := by
  fun_induction sequence held env body generalizing store with
  | case1 => exact ⟨rfl, rfl⟩
  | case2 last => exact List.getLast?_singleton
  | case3 expr next body ih =>
    refine asks_eval_bind (by simp) (fun _ store _ => (ih store).mono ?_ ?_) store
    · intro e he
      simp [he]
    · rintro (v | ⟨e, env'⟩) _ h
      · exact absurd h.1 (by simp)
      · exact List.getLast?_cons_cons.trans h

theorem asks_body (held : Held) (env : FrameId) {body : List Value} (hbody : body ≠ [])
    (store : Store) :
    (sequence held env body store).Asks seen (· ∈ body.dropLast)
      (Outcome.Leaves (body.getLast? = some ·) (fun _ => False)) := by
  refine (asks_sequence held env body store).mono (fun _ => id) ?_
  rintro (v | ⟨e, env'⟩) _ h
  · exact hbody h.1
  · exact h

private theorem asks_decide (decisive : Bool) (held : Held) (env : FrameId) (exprs : List Value)
    (store : Store) :
    (decide decisive held env exprs store).Asks seen (· ∈ exprs.dropLast)
      (Outcome.Leaves (exprs.getLast? = some ·)
        (fun v => exprs = [] ∧ v = .bool !decisive ∨ v.isTrue = decisive)) := by
  fun_induction decide decisive held env exprs generalizing store with
  | case1 => exact .inl ⟨rfl, rfl⟩
  | case2 last => exact List.getLast?_singleton
  | case3 expr next exprs ih =>
    refine asks_eval_bind (by simp) (fun v store _ => ?_) store
    split
    · next hdecides => exact .inr (beq_iff_eq.mp hdecides)
    · refine (ih store).mono ?_ ?_
      · intro e he
        simp [he]
      · rintro (v | ⟨e, env'⟩) _ h
        · exact .inr (h.resolve_left (by simp))
        · exact List.getLast?_cons_cons.trans h

private theorem asks_bindingsAfter (form : String) (reversed : List (Symbol × Value))
    (items : List Value) (store : Store) :
    (bindingsAfter form reversed items store).Asks seen inner fun bindings s => s = store ∧
      ∃ new, bindings = reversed.reverse ++ new ∧
        List.Forall₂ (fun item b => store.Lists item [.symbol b.1, b.2]) items new := by
  induction items generalizing reversed with
  | nil => exact ⟨rfl, [], by simp, .nil⟩
  | cons item items ih =>
    refine (asks_elements fun _ => by trivial).bind ?_
    rintro parts s ⟨rfl, hparts⟩
    split
    · next x init =>
      refine (ih ((x, init) :: reversed)).mono (fun _ => id) ?_
      rintro bindings s' ⟨rfl, new, rfl, hnew⟩
      exact ⟨rfl, (x, init) :: new, by simp, .cons hparts hnew⟩
    · trivial

theorem asks_splitLet (form : String) (operands : Value) (store : Store) :
    (splitLet form operands store).Asks seen inner fun parts s => s = store ∧ parts.2 ≠ [] ∧
      ∃ bindings, store.Lists operands (bindings :: parts.2) ∧ store.Binds bindings parts.1 := by
  refine (asks_operandList form operands store).bind ?_
  rintro items s ⟨rfl, hitems⟩
  split
  · trivial
  · trivial
  · next bindings body hbody =>
    refine (asks_elements fun _ => by trivial).bind ?_
    rintro list s' ⟨rfl, hlist⟩
    refine (asks_bindingsAfter form [] list s').bind ?_
    rintro pairs s'' ⟨rfl, new, rfl, hnew⟩
    refine ⟨rfl, ?_, bindings, hitems, list, hlist, hnew⟩
    rintro rfl
    exact hbody rfl

private theorem asks_letValues (held : List Value) (env : FrameId)
    (reversed bindings : List (Symbol × Value)) (store : Store)
    (hinner : ∀ b ∈ bindings, inner b.2) :
    (letValues held env reversed bindings store).Asks seen inner anything := by
  induction bindings generalizing held reversed store with
  | nil => trivial
  | cons binding bindings ih =>
    rw [letValues]
    split
    · trivial
    · exact asks_eval_bind (hinner binding (by simp))
        (fun v store _ => ih _ _ store fun b hb => hinner b (by simp [hb])) store

private theorem asks_nestedFrames (held : List Value) (scope : FrameId)
    (bindings : List (Symbol × Value)) (store : Store) (hinner : ∀ b ∈ bindings, inner b.2) :
    (nestedFrames held scope bindings store).Asks seen inner anything := by
  induction bindings generalizing held scope store with
  | nil => trivial
  | cons binding bindings ih =>
    refine asks_eval_bind (hinner binding (by simp)) (fun v store _ => ?_) store
    exact ih _ _ _ fun b hb => hinner b (by simp [hb])

end Forms

/-- The special forms that end in one of their own expressions. -/
inductive TailForm where
  | conditional | begin | letForm | letStar | cond | conjunction | disjunction
deriving DecidableEq

namespace TailForm

def name : TailForm → String
  | conditional => "if"
  | begin => "begin"
  | letForm => "let"
  | letStar => "let*"
  | cond => "cond"
  | conjunction => "and"
  | disjunction => "or"

def rule : TailForm → NativeForm
  | conditional => Forms.conditional
  | begin => Forms.begin
  | letForm => Forms.letForm
  | letStar => Forms.letStar
  | cond => Forms.cond
  | conjunction => Forms.conjunction
  | disjunction => Forms.disjunction

theorem mem_forms (form : TailForm) : (form.name, form.rule) ∈ Standard.forms := by
  cases form <;> simp [Standard.forms, name, rule]

/-- Among the operands is the clause of a `cond`: a test and a body, as they are found in a store
that has been seen. Evaluating the tests before it may have changed the clause. -/
def HasClause (seen : Store → Prop) (store : Store) (operands : Value) (test : Value)
    (body : List Value) : Prop :=
  ∃ clauses clause, store.Lists operands clauses ∧ clause ∈ clauses ∧
    ∃ s, seen s ∧ s.Lists clause (test :: body)

/-- The operands are the bindings and the body of a `let`. -/
def HasBody (store : Store) (operands : Value) (pairs : List (Symbol × Value))
    (body : List Value) : Prop :=
  ∃ bindings, store.Lists operands (bindings :: body) ∧ store.Binds bindings pairs

/-- The expression stands in the form before its end. -/
def Inner (seen : Store → Prop) (store : Store) (operands : Value) : TailForm → Value → Prop
  | conditional, expr => ∃ branches, store.Lists operands (expr :: branches)
  | letForm, expr | letStar, expr => ∃ pairs body, HasBody store operands pairs body ∧
      (expr ∈ pairs.map (·.2) ∨ expr ∈ body.dropLast)
  | cond, expr => ∃ test body, HasClause seen store operands test body ∧
      (expr = test ∨ expr ∈ body.dropLast)
  | begin, expr | conjunction, expr | disjunction, expr =>
    ∃ items, store.Lists operands items ∧ expr ∈ items.dropLast

/-- The expression stands at an end of the form. -/
def Last (seen : Store → Prop) (store : Store) (operands : Value) : TailForm → Value → Prop
  | conditional, expr => ∃ test branches, store.Lists operands (test :: branches) ∧ expr ∈ branches
  | letForm, expr | letStar, expr => ∃ pairs body, HasBody store operands pairs body ∧
      body.getLast? = some expr
  | cond, expr => ∃ test body, HasClause seen store operands test body ∧ body.getLast? = some expr
  | begin, expr | conjunction, expr | disjunction, expr =>
    ∃ items, store.Lists operands items ∧ items.getLast? = some expr

/-- The form can have the value without getting to an expression at its end: there is none, or none
is chosen, or the value of an expression before it decides. -/
def Alone (seen : Store → Prop) (store : Store) (operands : Value) : TailForm → Value → Prop
  | conditional, v => v = .unspecified ∧ ∃ test consequent, store.Lists operands [test, consequent]
  | letForm, _ | letStar, _ => False
  | cond, v => v = .unspecified ∨ v.isTrue = true ∧ ∃ test, HasClause seen store operands test []
  | begin, v => v = .unspecified ∧ store.Lists operands []
  | conjunction, v => v = .bool true ∧ store.Lists operands [] ∨ v.isTrue = false
  | disjunction, v => v = .bool false ∧ store.Lists operands [] ∨ v.isTrue = true

/-- On this store the form asks for what stands before its end and leaves what stands there. -/
def Transfers (form : TailForm) (seen : Store → Prop) (store : Store) (operands : Value)
    (env : FrameId) : Prop :=
  (form.rule operands env store).Asks seen (form.Inner seen store operands)
    (Outcome.Leaves (form.Last seen store operands) (form.Alone seen store operands))

variable (seen : Store → Prop) (store : Store) (operands : Value) (env : FrameId)

private theorem transfers_conditional : conditional.Transfers seen store operands env := by
  refine (Forms.asks_operandList "if" operands store).bind ?_
  rintro items s ⟨rfl, hitems⟩
  split
  · next test consequent =>
    refine asks_eval_bind ⟨_, hitems⟩ (fun v s _ => ?_) _
    split
    · exact ⟨test, [consequent], hitems, by simp⟩
    · exact ⟨rfl, test, consequent, hitems⟩
  · next test consequent alternative =>
    refine asks_eval_bind ⟨_, hitems⟩ (fun v s _ => ?_) _
    split
    · exact ⟨test, _, hitems, by simp⟩
    · exact ⟨test, _, hitems, by simp⟩
  · trivial

private theorem transfers_begin : begin.Transfers seen store operands env := by
  refine (Forms.asks_operandList "begin" operands store).bind ?_
  rintro items s ⟨rfl, hitems⟩
  refine (Forms.asks_sequence _ env items s).mono (fun e he => ⟨items, hitems, he⟩) ?_
  rintro (v | ⟨e, env'⟩) _ h
  · obtain ⟨rfl, rfl⟩ := h
    exact ⟨rfl, hitems⟩
  · exact ⟨items, hitems, h⟩

/-- Operands of which one before the last may decide. -/
theorem asks_decision (name : String) (decisive : Bool) :
    ((Forms.operandList name operands >>= fun items =>
      Forms.decide decisive { values := items } env items) store).Asks seen
      (conjunction.Inner seen store operands)
      (Outcome.Leaves (conjunction.Last seen store operands)
        (fun v => v = .bool !decisive ∧ store.Lists operands [] ∨ v.isTrue = decisive)) := by
  refine (Forms.asks_operandList name operands store).bind ?_
  rintro items s ⟨rfl, hitems⟩
  refine (Forms.asks_decide decisive _ env items s).mono (fun e he => ⟨items, hitems, he⟩) ?_
  rintro (v | ⟨e, env'⟩) _ h
  · rcases h with ⟨rfl, rfl⟩ | hdecides
    · exact .inl ⟨rfl, hitems⟩
    · exact .inr hdecides
  · exact ⟨items, hitems, h⟩

theorem asks_letBody {pairs : List (Symbol × Value)} {body : List Value} (hbody : body ≠ [])
    (hparts : HasBody store operands pairs body) (held : Held) (scope : FrameId) (s : Store) :
    (Forms.sequence held scope body s).Asks seen (letForm.Inner seen store operands)
      (Outcome.Leaves (letForm.Last seen store operands) (fun _ => False)) := by
  refine (Forms.asks_body held scope hbody s).mono (fun e he => ⟨pairs, body, hparts, .inr he⟩) ?_
  rintro (v | ⟨e, env'⟩) _ h
  · exact h
  · exact ⟨pairs, body, hparts, h⟩

private theorem transfers_letForm : letForm.Transfers seen store operands env := by
  refine (Forms.asks_splitLet "let" operands store).bind ?_
  rintro ⟨pairs, body⟩ s ⟨rfl, hbody, hparts⟩
  have hinits : ∀ b ∈ pairs, letForm.Inner seen s operands b.2 := fun b hb =>
    ⟨pairs, body, hparts, .inl (List.mem_map_of_mem hb)⟩
  refine (Forms.asks_letValues _ env [] pairs s hinits).bind fun values s' _ => ?_
  exact asks_letBody seen s operands hbody hparts _ _ _

private theorem transfers_letStar : letStar.Transfers seen store operands env := by
  refine (Forms.asks_splitLet "let*" operands store).bind ?_
  rintro ⟨pairs, body⟩ s ⟨rfl, hbody, hparts⟩
  have hinits : ∀ b ∈ pairs, letForm.Inner seen s operands b.2 := fun b hb =>
    ⟨pairs, body, hparts, .inl (List.mem_map_of_mem hb)⟩
  refine (Forms.asks_nestedFrames _ env pairs s hinits).bind fun scope s' _ => ?_
  dsimp only
  split
  · exact asks_letBody seen s operands hbody hparts _ _ _
  · exact asks_letBody seen s operands hbody hparts _ _ _

private theorem asks_clauses {clauses : List Value} (hclauses : store.Lists operands clauses)
    (otherwise : Symbol) {rest : List Value} (hrest : ∀ clause ∈ rest, clause ∈ clauses)
    {s : Store} (hs : seen s) :
    (Forms.clauses clauses otherwise env rest s).Asks seen (cond.Inner seen store operands)
      (Outcome.Leaves (cond.Last seen store operands) (cond.Alone seen store operands)) := by
  induction rest generalizing s with
  | nil => exact .inl rfl
  | cons clause rest ih =>
    refine (asks_elements fun _ => by trivial).bind ?_
    rintro parts s' ⟨rfl, hparts⟩
    split
    · trivial
    · next test body =>
      have hclause : HasClause seen store operands test body :=
        ⟨clauses, clause, hclauses, hrest clause (by simp), s', hs, hparts⟩
      have hends (held : Held) (hbody : body ≠ []) (s : Store) :
          (Forms.sequence held env body s).Asks seen (cond.Inner seen store operands)
            (Outcome.Leaves (cond.Last seen store operands) (cond.Alone seen store operands)) := by
        refine (Forms.asks_body held env hbody s).mono
          (fun e he => ⟨test, body, hclause, .inr he⟩) ?_
        rintro (v | ⟨e, env'⟩) _ h
        · exact h.elim
        · exact ⟨test, body, hclause, h⟩
      dsimp only
      split
      · split
        · trivial
        split
        · trivial
        · next hbody => exact hends _ (by simpa using hbody) _
      · refine asks_eval_bind ⟨test, body, hclause, .inl rfl⟩ (fun v s hs => ?_) _
        split
        · next htrue =>
          split
          · next hbody =>
            rw [List.isEmpty_iff.mp hbody] at hclause
            exact .inr ⟨htrue, test, hclause⟩
          · next hbody => exact hends _ (by simpa using hbody) _
        · exact ih (fun c hc => hrest c (by simp [hc])) hs

private theorem transfers_cond : cond.Transfers seen store operands env := by
  refine (Forms.asks_operandList "cond" operands store).bind ?_
  rintro clauses s ⟨rfl, hclauses⟩
  intro answer s' hs'
  cases answer with
  | error e => trivial
  | ok otherwise => exact asks_clauses seen s operands env hclauses otherwise (fun _ => id) hs'

theorem transfers (form : TailForm) : form.Transfers seen store operands env := by
  cases form with
  | conditional => exact transfers_conditional seen store operands env
  | begin => exact transfers_begin seen store operands env
  | letForm => exact transfers_letForm seen store operands env
  | letStar => exact transfers_letStar seen store operands env
  | cond => exact transfers_cond seen store operands env
  | conjunction => exact asks_decision seen store operands env "and" false
  | disjunction => exact asks_decision seen store operands env "or" true

end TailForm
end MiniScheme
