import MiniScheme.Proofs.Machine.FormEvaluation
/-! # `cond`, `and` and `or` by `if`

Each of these forms evaluates tests one after the other until one decides. The same evaluations are
those of `if` forms nested in each other: of a clause `(test expr ...)` by an `if` around a `begin`, of
a clause without expressions by an `or`, of the last clause with `else` by a `begin`.
-/
namespace MiniScheme

private theorem Value.eq_false_of_isTrue {v : Value} (h : v.isTrue = false) : v = .bool false := by
  cases v with
  | bool b => cases b <;> simp_all [isTrue]
  | _ => simp [isTrue] at h

private theorem SymbolTable.eq_of_intern_error {t t' : SymbolTable} {name : String}
    {e : SymbolTableError} (h : t.intern name = (.error e, t')) : t' = t := by
  unfold intern at h
  split at h
  · simp at h
  · exact (Prod.mk.inj h).2.symm
  · dsimp only at h
    split at h
    · split at h
      · simp at h
      · exact (Prod.mk.inj h).2.symm
    · simp at h

/-- In `env` the expression is a special form with this rule and these operands. -/
def IsForm (library : Library) (store : Store) (env : FrameId) (expr : Value) (rule : NativeForm)
    (operands : List Value) : Prop :=
  ∃ c, expr = .pair c ∧ Names library store env c rule ∧
    store.spine (store.rest c) = .proper operands

namespace Forms

variable {store : Store} {env : FrameId}

def branch (env : FrameId) (consequent alternative v : Value) : Native Outcome :=
  if v.isTrue then pure (.tail consequent env) else pure (.tail alternative env)

private theorem branch_of_true {v : Value} (h : v.isTrue = true) (env : FrameId)
    (consequent alternative : Value) (store : Store) :
    branch env consequent alternative v store = .done (.tail consequent env) store := by
  rw [branch, if_pos h]
  rfl

private theorem branch_of_false {v : Value} (h : v.isTrue = false) (env : FrameId)
    (consequent alternative : Value) (store : Store) :
    branch env consequent alternative v store = .done (.tail alternative env) store := by
  rw [branch, if_neg (by simp [h])]
  rfl

private theorem conditional_of_spine {operands test consequent alternative : Value}
    (h : store.spine operands = .proper [test, consequent, alternative]) (env : FrameId) :
    conditional operands env store =
      .eval test env { values := [test, consequent, alternative] } store
        (State.resumed (branch env consequent alternative)) := by
  simp only [conditional, bind, operandList_of_spine h, Interaction.bind]
  rfl

def decided (decisive : Bool) (held : Held) (env : FrameId) (exprs : List Value) (v : Value) :
    Native Outcome :=
  if v.isTrue == decisive then pure (.value v) else decide decisive held env exprs

private theorem decided_of_eq {decisive : Bool} {v : Value} (h : v.isTrue == decisive) (held : Held)
    (env : FrameId) (exprs : List Value) (store : Store) :
    decided decisive held env exprs v store = .done (.value v) store := by
  rw [decided, if_pos h]
  rfl

private theorem decided_of_ne {decisive : Bool} {v : Value} (h : ¬ v.isTrue == decisive)
    (held : Held) (env : FrameId) (exprs : List Value) (store : Store) :
    decided decisive held env exprs v store = decide decisive held env exprs store := by
  rw [decided, if_neg h]

private theorem decide_cons (decisive : Bool) (held : Held) (env : FrameId) (expr next : Value)
    (exprs : List Value) (store : Store) :
    decide decisive held env (expr :: next :: exprs) store =
      .eval expr env held store (State.resumed (decided decisive held env (next :: exprs))) :=
  rfl

/-- A true value, or else what the expression comes to. -/
def orElse (env : FrameId) (alternative v : Value) : Native Outcome :=
  if v.isTrue then pure (.value v) else pure (.tail alternative env)

/-- The value of the first expression if it is true, or else what the other one comes to. -/
def either (held : Held) (env : FrameId) (expr alternative : Value) : Native Outcome :=
  Native.eval expr env held >>= orElse env alternative

/-- The form that goes on until an expression is false, or true. -/
def deciding (decisive : Bool) : NativeForm := if decisive then disjunction else conjunction

private theorem deciding_of_spine {operands : Value} {items : List Value}
    (h : store.spine operands = .proper items) (decisive : Bool) (env : FrameId) :
    deciding decisive operands env store =
      decide decisive { values := items } env items store := by
  cases decisive <;>
    simp [deciding, conjunction, disjunction, bind, operandList_of_spine h, Interaction.bind]

private theorem begin_of_spine {operands : Value} {items : List Value}
    (h : store.spine operands = .proper items) (env : FrameId) :
    begin operands env store = sequence { values := items, frames := [env] } env items store := by
  simp only [begin, bind, operandList_of_spine h, Interaction.bind]

def clauseHeld (all : List Value) (env : FrameId) (test : Value) (body : List Value) : Held :=
  { values := test :: body ++ all, frames := [env] }

/-- The part of `cond` behind the test of a clause. -/
def tested (all : List Value) (otherwise : Symbol) (env : FrameId) (test : Value)
    (body rest : List Value) (v : Value) : Native Outcome :=
  if v.isTrue then
    if body.isEmpty then pure (.value v)
    else
      let held := clauseHeld all env test body
      sequence { held with values := v :: held.values } env body
  else clauses all otherwise env rest

def IsElse (otherwise : Symbol) (test : Value) : Prop :=
  test.asSymbol?.any (fun x => x.same otherwise) = true

instance (otherwise : Symbol) (test : Value) : Decidable (IsElse otherwise test) :=
  inferInstanceAs (Decidable (_ = true))

/-- The part of `cond` behind the reading of a clause. -/
def clauseRead (all : List Value) (otherwise : Symbol) (env : FrameId) (rest : List Value) :
    (parts : List Value) → Native Outcome
  | [] => bad "cond" "empty clause"
  | test :: body =>
    if IsElse otherwise test then
      if !rest.isEmpty then bad "cond" "else clause must be last"
      else if body.isEmpty then bad "cond" "else clause needs a body"
      else sequence (clauseHeld all env test body) env body
    else
      Native.eval test env (clauseHeld all env test body) >>=
        tested all otherwise env test body rest

private theorem clauses_of_spine {clause : Value} {parts : List Value}
    (h : store.spine clause = .proper parts) (all : List Value) (otherwise : Symbol)
    (env : FrameId) (rest : List Value) :
    clauses all otherwise env (clause :: rest) store =
      clauseRead all otherwise env rest parts store := by
  have hclauses : clauses all otherwise env (clause :: rest) = (Native.elements clause
      fun _ => badValue "cond" "clause must be a list: " clause) >>=
        clauseRead all otherwise env rest := by
    refine congrArg _ (funext fun parts => ?_)
    cases parts <;> rfl
  rw [hclauses]
  simp only [Native.elements, Native.read, bind, h, Interaction.bind, pure]

private theorem clauses_of_test {clause test : Value} {body : List Value} {otherwise : Symbol}
    (h : store.spine clause = .proper (test :: body)) (hne : ¬ IsElse otherwise test)
    (all : List Value) (env : FrameId) (rest : List Value) :
    clauses all otherwise env (clause :: rest) store =
      .eval test env (clauseHeld all env test body) store
        (State.resumed (tested all otherwise env test body rest)) := by
  rw [clauses_of_spine h, clauseRead, if_neg hne]
  rfl

private theorem clauses_of_else {clause test : Value} {body : List Value} {otherwise : Symbol}
    (h : store.spine clause = .proper (test :: body)) (helse : IsElse otherwise test)
    (hbody : body ≠ []) (all : List Value) (env : FrameId) :
    clauses all otherwise env [clause] store =
      sequence (clauseHeld all env test body) env body store := by
  obtain ⟨expr, body, rfl⟩ := List.exists_cons_of_ne_nil hbody
  rw [clauses_of_spine h, clauseRead, if_pos helse]
  rfl

private theorem tested_of_false {v : Value} (h : v.isTrue = false) (all : List Value)
    (otherwise : Symbol) (env : FrameId) (test : Value) (body rest : List Value) :
    tested all otherwise env test body rest v = clauses all otherwise env rest := by
  rw [tested, if_neg (by simp [h])]

private theorem tested_of_true {v : Value} (h : v.isTrue = true) (all : List Value)
    (otherwise : Symbol)
    (env : FrameId) (test : Value) {body : List Value} (hbody : body ≠ []) (rest : List Value) :
    tested all otherwise env test body rest v =
      sequence ⟨v :: (clauseHeld all env test body).values, [env]⟩ env body := by
  rw [tested, if_pos h, if_neg (by simpa using hbody)]
  rfl

private theorem cond_of_spine {operands : Value} {items : List Value}
    (h : store.spine operands = .proper items) (env : FrameId) :
    cond operands env store = .intern "else" store fun answer store =>
      (Interaction.ofExcept answer store).bind fun otherwise => clauses items otherwise env items := by
  simp only [cond, bind, operandList_of_spine h, Interaction.bind]
  rfl

end Forms

namespace State

open Forms

variable {setting : Setting} {ws ws' : List Waiting} {m m' : Machine} {env : FrameId}
  {context context' held held' : Held}

/-- From `m` on the expression is the expansion of the clauses: each form of it stands as soon as
evaluation has come to it. -/
def Expands (setting : Setting) (ws : List Waiting) (otherwise : Symbol) (env : FrameId) :
    (clauses : List Value) → (expr : Value) → Machine → Prop
  | [], expr, _ => expr = .unspecified
  | clause :: rest, expr, m =>
    ∃ test body, m.store.spine clause = .proper (test :: body) ∧
      if IsElse otherwise test then
        rest = [] ∧ body ≠ [] ∧ IsForm setting.library m.store env expr begin body
      else if body = [] then
        ∃ alternative, IsForm setting.library m.store env expr disjunction [test, alternative] ∧
          ∀ v context m₁, v.isTrue = false →
            Proceeds setting ws ⟨m, .eval expr env, ws⟩
              ⟨m₁, .native (decided true { values := [test, alternative] } env [alternative] v)
                context, ws⟩ →
            Expands setting ws otherwise env rest alternative m₁
      else
        ∃ consequent alternative,
          IsForm setting.library m.store env expr conditional [test, consequent, alternative] ∧
          ∀ v context m₁,
            Proceeds setting ws ⟨m, .eval expr env, ws⟩
              ⟨m₁, .native (branch env consequent alternative v) context, ws⟩ →
            if v.isTrue then IsForm setting.library m₁.store env consequent begin body
            else Expands setting ws otherwise env rest alternative m₁

/-- A form goes on with what its rule makes of its operands. -/
theorem proceeds_isForm {expr : Value} {rule : NativeForm} {operands : List Value}
    {made : Store → Interaction Outcome}
    (hrule : ∀ {store v}, store.spine v = .proper operands → rule v env store = made store)
    (h : IsForm setting.library m.store env expr rule operands) (hallows : setting.Allows m.depth)
    (ws : List Waiting) :
    ∃ program m' context, program m'.store = made m.store ∧ m.SameEffects m' ∧ m.SameStack m' ∧
      Proceeds setting ws ⟨m, .eval expr env, ws⟩ ⟨m', .native program context, ws⟩ := by
  obtain ⟨c, rfl, hnames, hspine⟩ := h
  obtain ⟨m', heffects, hsame, hform⟩ := proceeds_form hnames hallows ws
  refine ⟨_, m', _, ?_, heffects, hsame, hform⟩
  rw [heffects.store]
  exact hrule hspine

theorem finishes_atom (setting : Setting) (ws : List Waiting) (m : Machine) (env : FrameId)
    {v : Value} (hsymbol : ∀ x, v ≠ .symbol x) (hpair : v.isPair = false) :
    ∃ m', m.SameEffects m' ∧ Finishes setting ws ⟨m, .eval v env, ws⟩ (.ok v) m' := by
  refine ⟨m.count Counters.countExpression, ⟨rfl, rfl, rfl⟩, .later not_answersTo_eval ?_⟩
  cases v with
  | symbol x => exact absurd rfl (hsymbol x)
  | pair c => simp [Value.isPair] at hpair
  | _ => exact .now _ _

theorem concur_decide {program program' : Native Outcome} {decisive : Bool} {exprs : List Value}
    {store : Store}
    (h : Machine.Matches setting { m with store := store } { m' with store := store })
    (hdecide : program m.store = Forms.decide decisive held env exprs store)
    (hdecide' : program' m'.store = Forms.decide decisive held' env exprs store) :
    Concur setting setting ws ws' ⟨m, .native program context, ws⟩
      ⟨m', .native program' context', ws'⟩ := by
  induction exprs generalizing m m' program program' store with
  | nil => exact concur_value h hdecide hdecide'
  | cons expr rest ih =>
    cases rest with
    | nil =>
      exact .of_proceeds (proceeds_tail hdecide) (proceeds_tail hdecide') (concur_tail h expr env)
    | cons next rest =>
      refine concur_eval h hdecide hdecide' fun v m₁ m₂ hm _ _ => ?_
      have hm' := hm.withStore m₁.store
      by_cases hv : v.isTrue == decisive
      · exact concur_value hm' (decided_of_eq hv ..) (by rw [hm.store]; exact decided_of_eq hv ..)
      · exact ih hm' (decided_of_ne hv ..) (by rw [hm.store]; exact decided_of_ne hv ..)

theorem proceeds_cond {expr : Value} {items : List Value} {otherwise : Symbol}
    {symbols : SymbolTable} (h : IsForm setting.library m.store env expr cond items)
    (hallows : setting.Allows m.depth) (hintern : m.symbols.intern "else" = (.ok otherwise, symbols))
    (ws : List Waiting) :
    ∃ m' context, Machine.SameEffects { m with symbols := symbols } m' ∧ m.SameStack m' ∧
      Proceeds setting ws ⟨m, .eval expr env, ws⟩
        ⟨m', .native (clauses items otherwise env items) context, ws⟩ := by
  obtain ⟨program, m₁, context, hprogram, heffects, hsame, hform⟩ :=
    proceeds_isForm (cond_of_spine · env) h hallows ws
  rw [← heffects.store] at hprogram
  rw [← heffects.symbols] at hintern
  refine ⟨{ m₁ with symbols := symbols }, context, ⟨heffects.store, rfl, heffects.output⟩, hsame,
    hform.trans (.next not_answersTo_native ?_)⟩
  simp only [step, runNative, hprogram, Machine.intern, hintern]
  exact .refl _

theorem finishes_cond_of_intern {expr : Value} {items : List Value} {e : SymbolTableError}
    (h : IsForm setting.library m.store env expr cond items) (hallows : setting.Allows m.depth)
    (hintern : m.symbols.intern "else" = (.error e, m.symbols)) (ws : List Waiting) :
    ∃ m', m.SameEffects m' ∧
      Finishes setting ws ⟨m, .eval expr env, ws⟩ (.error (.ofSymbolTable e)) m' := by
  obtain ⟨program, m₁, context, hprogram, heffects, hsame, hform⟩ :=
    proceeds_isForm (cond_of_spine · env) h hallows ws
  rw [← heffects.store] at hprogram
  rw [← heffects.symbols] at hintern
  refine ⟨_, heffects, hform.finishes (.later not_answersTo_native ?_)⟩
  simp only [step, runNative, hprogram, Machine.intern, hintern]
  exact finishes_native_fail rfl

theorem proceeds_deciding {decisive : Bool} {expr : Value} {items : List Value}
    (h : IsForm setting.library m.store env expr (deciding decisive) items)
    (hallows : setting.Allows m.depth) (ws : List Waiting) :
    ∃ program m' context, program m'.store = Forms.decide decisive ⟨items, []⟩ env items m.store ∧
      m.SameEffects m' ∧ m.SameStack m' ∧
      Proceeds setting ws ⟨m, .eval expr env, ws⟩ ⟨m', .native program context, ws⟩ :=
  proceeds_isForm (deciding_of_spine · decisive env) h hallows ws

theorem proceeds_if {expr test consequent alternative : Value}
    (h : IsForm setting.library m.store env expr conditional [test, consequent, alternative])
    (hallows : setting.Allows m.depth) (ws : List Waiting) :
    ∃ program m' context,
      program m'.store = .eval test env ⟨[test, consequent, alternative], []⟩ m.store
        (resumed (branch env consequent alternative)) ∧
      m.SameEffects m' ∧ m.SameStack m' ∧
      Proceeds setting ws ⟨m, .eval expr env, ws⟩ ⟨m', .native program context, ws⟩ :=
  proceeds_isForm (conditional_of_spine · env) h hallows ws

theorem concur_deciding {program : Native Outcome} {decisive : Bool} {expr : Value}
    {exprs : List Value}
    (hform : IsForm setting.library m'.store env expr (deciding decisive) exprs)
    (hallows : setting.Allows m'.depth)
    (h : Machine.Matches setting { m with store := m'.store } m')
    (hdecide : program m.store = Forms.decide decisive held env exprs m'.store) :
    Concur setting setting ws ws' ⟨m, .native program context, ws⟩
      ⟨m', .eval expr env, ws'⟩ := by
  obtain ⟨program', m₁, context', hdecide', heffects, hsame, hproceeds⟩ :=
    proceeds_deciding hform hallows ws'
  exact .of_proceeds (.refl _) hproceeds (concur_decide
    ((h.idle (.refl _) ⟨rfl, rfl⟩ heffects hsame).withStore m'.store) hdecide hdecide')

theorem concur_begin {program : Native Outcome} {expr : Value} {body : List Value}
    (hbegin : IsForm setting.library m'.store env expr begin body)
    (hallows : setting.Allows m'.depth)
    (h : Machine.Matches setting { m with store := m'.store } m')
    (hprogram : program m.store = sequence held env body m'.store) :
    Concur setting setting ws ws' ⟨m, .native program context, ws⟩
      ⟨m', .eval expr env, ws'⟩ := by
  obtain ⟨program', m₁, context', hsequence, heffects, hsame, hproceeds⟩ :=
    proceeds_isForm (begin_of_spine · env) hbegin hallows ws'
  refine .of_proceeds (.refl _) hproceeds ?_
  rw [← heffects.store] at hsequence hprogram
  exact concur_sequence ((h.idle (.refl _) ⟨rfl, rfl⟩ heffects hsame).withStore m₁.store) hprogram
    hsequence

/-- The clauses of a `cond` and their expansion. -/
theorem concur_clauses (hunlimited : setting.maxDepth = none) {otherwise : Symbol}
    {all rest : List Value} {expr : Value} {program : Native Outcome}
    (hexpands : Expands setting ws' otherwise env rest expr m')
    (h : Machine.Matches setting { m with store := m'.store } m')
    (hprogram : program m.store = clauses all otherwise env rest m'.store) :
    Concur setting setting ws ws' ⟨m, .native program context, ws⟩
      ⟨m', .eval expr env, ws'⟩ := by
  have hallows (m : Machine) : setting.Allows m.depth := Setting.allows_of_unlimited hunlimited _
  induction rest generalizing m m' program expr context with
  | nil =>
    obtain rfl : expr = .unspecified := hexpands
    obtain ⟨m₁, heffects, hfin⟩ := finishes_atom setting ws' m' env (v := .unspecified) (by simp) rfl
    exact .finish (finishes_native_value hprogram) hfin (h.toSameEffects.trans heffects)
  | cons clause rest ih =>
    obtain ⟨test, body, hclause, hform⟩ := hexpands
    split at hform
    · next helse =>
      obtain ⟨rfl, hbody, hbegin⟩ := hform
      exact concur_begin hbegin (hallows m') h
        (hprogram.trans (clauses_of_else hclause helse hbody ..))
    · next htest =>
      replace hprogram := hprogram.trans (clauses_of_test hclause htest all env rest)
      split at hform
      · next hbody =>
        obtain ⟨alternative, hor, hrest⟩ := hform
        replace hor : IsForm setting.library m'.store env expr (deciding true) [test, alternative] :=
          hor
        obtain ⟨program', m₁, context', hasks, heffects, hsame, hproceeds⟩ :=
          proceeds_deciding hor (hallows m') ws'
        refine .of_proceeds (.refl _) hproceeds ?_
        refine concur_eval ((h.idle (.refl _) ⟨rfl, rfl⟩ heffects hsame).withStore m'.store)
          hprogram (hasks.trans (decide_cons ..)) ?_
        intro v m₂ m₃ hm _ hreach
        have hm' := hm.withStore m₃.store
        by_cases hv : v.isTrue
        · refine concur_value hm' ?_ (decided_of_eq (by simp [hv]) ..)
          rw [tested, if_pos hv, if_pos (by simpa using hbody), hm.store]
          rfl
        · refine .of_proceeds (.refl _) (proceeds_tail (decided_of_ne (by simp [hv]) ..)) ?_
          refine ih (hrest v context' m₃ (by simpa using hv) (hproceeds.trans hreach)) hm' ?_
          rw [tested_of_false (by simpa using hv), hm.store]
      · next hbody =>
        obtain ⟨consequent, alternative, hif, hrest⟩ := hform
        obtain ⟨program', m₁, context', hasks, heffects, hsame, hproceeds⟩ :=
          proceeds_if hif (hallows m') ws'
        refine .of_proceeds (.refl _) hproceeds ?_
        refine concur_eval ((h.idle (.refl _) ⟨rfl, rfl⟩ heffects hsame).withStore m'.store)
          hprogram hasks ?_
        intro v m₂ m₃ hm _ hreach
        have hm' := hm.withStore m₃.store
        have hbranch := hrest v context' m₃ (hproceeds.trans hreach)
        by_cases hv : v.isTrue
        · rw [if_pos hv] at hbranch
          refine .of_proceeds (.refl _) (proceeds_tail (branch_of_true hv ..)) ?_
          have hsequence : tested all otherwise env test body rest v m₂.store =
              sequence ⟨v :: (clauseHeld all env test body).values, [env]⟩ env body m₃.store := by
            rw [tested_of_true hv all otherwise env test hbody rest, hm.store]
          exact concur_begin hbranch (hallows m₃) hm' hsequence
        · rw [if_neg hv] at hbranch
          refine .of_proceeds (.refl _) (proceeds_tail (branch_of_false (by simpa using hv) ..)) ?_
          refine ih hbranch hm' ?_
          rw [tested_of_false (by simpa using hv), hm.store]

theorem concur_conjunction (hunlimited : setting.maxDepth = none) {expr whole rest first next : Value}
    {exprs : List Value}
    (hand : IsForm setting.library m.store env expr conjunction (first :: next :: exprs))
    (hif : IsForm setting.library m.store env whole conditional [first, rest, .bool false])
    (hrest : ∀ v context m₁, v.isTrue = true →
      Proceeds setting ws' ⟨m, .eval whole env, ws'⟩
        ⟨m₁, .native (branch env rest (.bool false) v) context, ws'⟩ →
      IsForm setting.library m₁.store env rest conjunction (next :: exprs)) :
    Concur setting setting ws ws' ⟨m, .eval expr env, ws⟩ ⟨m, .eval whole env, ws'⟩ := by
  have hallows (m : Machine) : setting.Allows m.depth := Setting.allows_of_unlimited hunlimited _
  replace hand : IsForm setting.library m.store env expr (deciding false) (first :: next :: exprs) :=
    hand
  obtain ⟨program, m₁, context, hdecide, heffects₁, hsame₁, hproceeds₁⟩ :=
    proceeds_deciding hand (hallows m) ws
  obtain ⟨program', m₂, context', hasks, heffects₂, hsame₂, hproceeds₂⟩ :=
    proceeds_if hif (hallows m) ws'
  have hmatches := (Machine.Matches.refl setting m).idle heffects₁ hsame₁ heffects₂ hsame₂
  refine .of_proceeds hproceeds₁ hproceeds₂ ?_
  refine concur_eval (hmatches.withStore m.store) (hdecide.trans (decide_cons ..)) hasks ?_
  intro v m₃ m₄ hm _ hreach
  by_cases hv : v.isTrue
  · refine .of_proceeds (.refl _) (proceeds_tail (branch_of_true hv ..)) ?_
    have hform : IsForm setting.library m₄.store env rest (deciding false) (next :: exprs) :=
      hrest v context' m₄ hv (hproceeds₂.trans hreach)
    have hdecide' : decided false ⟨first :: next :: exprs, []⟩ env (next :: exprs) v m₃.store =
        Forms.decide false ⟨first :: next :: exprs, []⟩ env (next :: exprs) m₄.store := by
      rw [decided_of_ne (by simp [hv]), hm.store]
    exact concur_deciding hform (hallows m₄) (hm.withStore m₄.store) hdecide'
  · obtain rfl := Value.eq_false_of_isTrue (by simpa using hv)
    refine .of_proceeds (.refl _) (proceeds_tail (branch_of_false rfl ..)) ?_
    obtain ⟨m₅, heffects, hfin⟩ :=
      finishes_atom setting ws' m₄ env (v := .bool false) (by simp) rfl
    exact .finish (finishes_native_value (decided_of_eq rfl ..)) hfin
      (hm.toSameEffects.trans heffects)

/-- `or` yields the value of its first operand if it is true, and comes to the `or` of the others
otherwise. -/
theorem concur_disjunction (hunlimited : setting.maxDepth = none) {expr rest first next : Value}
    {exprs : List Value}
    (hor : IsForm setting.library m.store env expr disjunction (first :: next :: exprs))
    (hrest : ∀ v m₁, v.isTrue = false →
      Proceeds setting ws' ⟨m, .native (either held env first rest) context, ws'⟩
        ⟨m₁, .native (orElse env rest v) context, ws'⟩ →
      IsForm setting.library m₁.store env rest disjunction (next :: exprs)) :
    Concur setting setting ws ws' ⟨m, .eval expr env, ws⟩
      ⟨m, .native (either held env first rest) context, ws'⟩ := by
  have hallows (m : Machine) : setting.Allows m.depth := Setting.allows_of_unlimited hunlimited _
  replace hor : IsForm setting.library m.store env expr (deciding true) (first :: next :: exprs) :=
    hor
  obtain ⟨program, m₁, context₁, hdecide, heffects₁, hsame₁, hproceeds₁⟩ :=
    proceeds_deciding hor (hallows m) ws
  have hmatches := (Machine.Matches.refl setting m).idle heffects₁ hsame₁ (.refl m) ⟨rfl, rfl⟩
  refine .of_proceeds hproceeds₁ (.refl _) ?_
  refine concur_eval (hmatches.withStore m.store) (hdecide.trans (decide_cons ..)) rfl ?_
  intro v m₃ m₄ hm _ hreach
  by_cases hv : v.isTrue
  · refine concur_value (hm.withStore m₃.store) (decided_of_eq (by simp [hv]) ..) ?_
    rw [orElse, if_pos hv, hm.store]
    rfl
  · have htail : orElse env rest v m₄.store = .done (.tail rest env) m₄.store := by
      rw [orElse, if_neg hv]
      rfl
    refine .of_proceeds (.refl _) (proceeds_tail htail) ?_
    have hform : IsForm setting.library m₄.store env rest (deciding true) (next :: exprs) :=
      hrest v m₄ (by simpa using hv) hreach
    have hdecide' : decided true ⟨first :: next :: exprs, []⟩ env (next :: exprs) v m₃.store =
        Forms.decide true ⟨first :: next :: exprs, []⟩ env (next :: exprs) m₄.store := by
      rw [decided_of_ne (by simp [hv]), hm.store]
    exact concur_deciding hform (hallows m₄) (hm.withStore m₄.store) hdecide'

theorem finishes_deciding_nil (hunlimited : setting.maxDepth = none) {decisive : Bool} {expr : Value}
    (h : IsForm setting.library m.store env expr (deciding decisive) []) (ws : List Waiting) :
    ∃ m', m.SameEffects m' ∧
      Finishes setting ws ⟨m, .eval expr env, ws⟩ (.ok (.bool !decisive)) m' := by
  obtain ⟨program, m₁, context, hdecide, heffects, -, hproceeds⟩ :=
    proceeds_deciding h (Setting.allows_of_unlimited hunlimited _) ws
  exact ⟨{ m₁ with store := m.store }, ⟨rfl, heffects.symbols, heffects.output⟩,
    hproceeds.finishes (finishes_native_value hdecide)⟩

theorem concur_deciding_singleton (hunlimited : setting.maxDepth = none) {decisive : Bool}
    {expr last : Value} (h : IsForm setting.library m.store env expr (deciding decisive) [last]) :
    Concur setting setting ws ws' ⟨m, .eval expr env, ws⟩ ⟨m, .eval last env, ws'⟩ := by
  obtain ⟨program, m₁, context, hdecide, heffects, hsame, hproceeds⟩ :=
    proceeds_deciding h (Setting.allows_of_unlimited hunlimited _) ws
  refine .of_proceeds (hproceeds.trans (proceeds_tail hdecide)) (.refl _) ?_
  exact concur_tail (((Machine.Matches.refl setting m).idle heffects hsame (.refl m)
    ⟨rfl, rfl⟩).withStore m.store) last env

end State

open State Forms

/-- `cond`, `and` and `or` come to what forms nested in each other come to: a `cond` to its expansion
by `if`, `or` and `begin`, once the name `else` is interned; `and` to an `if` around the `and` of the
other operands; `or` to the value of its first operand if that is true and to the `or` of the others
otherwise. The two finish with one result and the same effects, or neither finishes, or the first
thing in which they differ is whether somebody else holds a closure that a definition is to name. -/
theorem conditional_forms_agree_with_if {setting : Setting} (hunlimited : setting.maxDepth = none)
    (ws ws' : List Waiting) (m : Machine) (env : FrameId) (expr : Value) :
    (∀ clauses, IsForm setting.library m.store env expr cond clauses →
      (∀ otherwise symbols expansion, m.symbols.intern "else" = (.ok otherwise, symbols) →
        Expands setting ws' otherwise env clauses expansion { m with symbols := symbols } →
        Concur setting setting ws ws' ⟨m, .eval expr env, ws⟩
          ⟨{ m with symbols := symbols }, .eval expansion env, ws'⟩) ∧
      ∀ e symbols, m.symbols.intern "else" = (.error e, symbols) →
        ∃ m', m.SameEffects m' ∧
          Finishes setting ws ⟨m, .eval expr env, ws⟩ (.error (.ofSymbolTable e)) m') ∧
    (∀ decisive, IsForm setting.library m.store env expr (deciding decisive) [] →
      ∃ m', m.SameEffects m' ∧
        Finishes setting ws ⟨m, .eval expr env, ws⟩ (.ok (.bool !decisive)) m') ∧
    (∀ decisive last, IsForm setting.library m.store env expr (deciding decisive) [last] →
      Concur setting setting ws ws' ⟨m, .eval expr env, ws⟩ ⟨m, .eval last env, ws'⟩) ∧
    (∀ first next exprs whole rest,
      IsForm setting.library m.store env expr conjunction (first :: next :: exprs) →
      IsForm setting.library m.store env whole conditional [first, rest, .bool false] →
      (∀ v context m₁, v.isTrue = true →
        Proceeds setting ws' ⟨m, .eval whole env, ws'⟩
          ⟨m₁, .native (branch env rest (.bool false) v) context, ws'⟩ →
        IsForm setting.library m₁.store env rest conjunction (next :: exprs)) →
      Concur setting setting ws ws' ⟨m, .eval expr env, ws⟩ ⟨m, .eval whole env, ws'⟩) ∧
    ∀ first next exprs rest held context,
      IsForm setting.library m.store env expr disjunction (first :: next :: exprs) →
      (∀ v m₁, v.isTrue = false →
        Proceeds setting ws' ⟨m, .native (either held env first rest) context, ws'⟩
          ⟨m₁, .native (orElse env rest v) context, ws'⟩ →
        IsForm setting.library m₁.store env rest disjunction (next :: exprs)) →
      Concur setting setting ws ws' ⟨m, .eval expr env, ws⟩
        ⟨m, .native (either held env first rest) context, ws'⟩ := by
  have hallows : setting.Allows m.depth := Setting.allows_of_unlimited hunlimited _
  refine ⟨fun clauses hcond => ⟨?_, ?_⟩, ?_, ?_, ?_, ?_⟩
  · intro otherwise symbols expansion hintern hexpands
    obtain ⟨m₁, context, heffects, hsame, hproceeds⟩ := proceeds_cond hcond hallows hintern ws
    have hclauses : Forms.clauses clauses otherwise env clauses m₁.store =
        Forms.clauses clauses otherwise env clauses m.store := by rw [heffects.store]
    refine .of_proceeds hproceeds (.refl _) (concur_clauses hunlimited hexpands ?_ hclauses)
    exact ⟨⟨rfl, heffects.symbols.symm, heffects.output.symm⟩, .inl hunlimited⟩
  · intro e symbols hintern
    obtain rfl := SymbolTable.eq_of_intern_error hintern
    exact finishes_cond_of_intern hcond hallows hintern ws
  · exact fun decisive h => finishes_deciding_nil hunlimited h ws
  · exact fun decisive last h => concur_deciding_singleton hunlimited h
  · exact fun first next exprs whole rest => concur_conjunction hunlimited
  · exact fun first next exprs rest held context => concur_disjunction hunlimited

namespace Choosing

def library : Library where
  forms := #[conjunction, conditional, define, letForm, assign, cond, disjunction, begin]

/-- Pair 0 is `(and p (define q (let ((t f)) (set! f 0) t)) q)` and pair 17 the `if` form for it,
where `p` and the value of `f` are closure 0, which has no name. Pair 22 is `(cond (#f) (else 1))`,
pair 28 its expansion. -/
def machine : Machine where
  store :=
    { cells := #[
        ⟨.symbol ⟨1, "and"⟩, .pair ⟨1⟩⟩, ⟨.closure ⟨0⟩, .pair ⟨2⟩⟩, ⟨.pair ⟨4⟩, .pair ⟨3⟩⟩,
        ⟨.symbol ⟨10, "q"⟩, .nil⟩, ⟨.symbol ⟨3, "define"⟩, .pair ⟨5⟩⟩, ⟨.symbol ⟨10, "q"⟩, .pair ⟨6⟩⟩,
        ⟨.pair ⟨7⟩, .nil⟩, ⟨.symbol ⟨4, "let"⟩, .pair ⟨8⟩⟩, ⟨.pair ⟨9⟩, .pair ⟨12⟩⟩,
        ⟨.pair ⟨10⟩, .nil⟩, ⟨.symbol ⟨11, "t"⟩, .pair ⟨11⟩⟩, ⟨.symbol ⟨9, "f"⟩, .nil⟩,
        ⟨.pair ⟨13⟩, .pair ⟨16⟩⟩, ⟨.symbol ⟨5, "set!"⟩, .pair ⟨14⟩⟩, ⟨.symbol ⟨9, "f"⟩, .pair ⟨15⟩⟩,
        ⟨.int 0, .nil⟩, ⟨.symbol ⟨11, "t"⟩, .nil⟩,
        ⟨.symbol ⟨2, "if"⟩, .pair ⟨18⟩⟩, ⟨.closure ⟨0⟩, .pair ⟨19⟩⟩, ⟨.pair ⟨21⟩, .pair ⟨20⟩⟩,
        ⟨.bool false, .nil⟩, ⟨.symbol ⟨1, "and"⟩, .pair ⟨2⟩⟩,
        ⟨.symbol ⟨6, "cond"⟩, .pair ⟨23⟩⟩, ⟨.pair ⟨25⟩, .pair ⟨24⟩⟩, ⟨.pair ⟨26⟩, .nil⟩,
        ⟨.bool false, .nil⟩, ⟨.symbol ⟨0, "else"⟩, .pair ⟨27⟩⟩, ⟨.int 1, .nil⟩,
        ⟨.symbol ⟨7, "or"⟩, .pair ⟨29⟩⟩, ⟨.bool false, .pair ⟨30⟩⟩, ⟨.pair ⟨31⟩, .nil⟩,
        ⟨.symbol ⟨8, "begin"⟩, .pair ⟨27⟩⟩]
      frames := #[⟨[(⟨1, "and"⟩, .form ⟨0, "and"⟩), (⟨2, "if"⟩, .form ⟨1, "if"⟩),
        (⟨3, "define"⟩, .form ⟨2, "define"⟩), (⟨4, "let"⟩, .form ⟨3, "let"⟩),
        (⟨5, "set!"⟩, .form ⟨4, "set!"⟩), (⟨6, "cond"⟩, .form ⟨5, "cond"⟩),
        (⟨7, "or"⟩, .form ⟨6, "or"⟩), (⟨8, "begin"⟩, .form ⟨7, "begin"⟩),
        (⟨9, "f"⟩, .closure ⟨0⟩)], none⟩]
      closures := #[⟨none, .fixed [], [.int 1], ⟨0⟩⟩] }
  symbols := ⟨#[some ⟨0, "else"⟩], 1, none, fun _ => 0⟩
  calls := CallStack.empty
  depth := 0
  counters := none
  output := .silent

def setting : Setting := ⟨library, none, {}⟩

def evaluating (c : Nat) : State := ⟨machine, .eval (.pair ⟨c⟩) ⟨0⟩, []⟩

/-- The cells are as they were, and so are the names of the forms. -/
def Unchanged (s : Store) : Prop :=
  s.cells = machine.store.cells ∧
    s.lookup ⟨0⟩ ⟨1, "and"⟩ = .ok (.form ⟨0, "and"⟩) ∧
    s.lookup ⟨0⟩ ⟨8, "begin"⟩ = .ok (.form ⟨7, "begin"⟩)

instance (s : Store) : Decidable (Unchanged s) := inferInstanceAs (Decidable (_ ∧ _ ∧ _))

theorem unchanged_while_running (c : Nat) (hc : c ∈ [17, 28]) :
    (after setting 60 (evaluating c)).result?.isSome ∧
    ∀ n < 61, (after setting n (evaluating c)).waiting.isEmpty →
      Unchanged (after setting n (evaluating c)).machine.store := by
  revert c
  decide +kernel

private theorem isForm_and : IsForm library machine.store ⟨0⟩ (.pair ⟨0⟩) conjunction
    [.closure ⟨0⟩, .pair ⟨4⟩, .symbol ⟨10, "q"⟩] :=
  ⟨⟨0⟩, rfl, ⟨⟨1, "and"⟩, ⟨0, "and"⟩, rfl, rfl, rfl⟩, rfl⟩

private theorem isForm_if : IsForm library machine.store ⟨0⟩ (.pair ⟨17⟩) conditional
    [.closure ⟨0⟩, .pair ⟨21⟩, .bool false] :=
  ⟨⟨17⟩, rfl, ⟨⟨2, "if"⟩, ⟨1, "if"⟩, rfl, rfl, rfl⟩, rfl⟩

private theorem isForm_rest {s : Store} (h : Unchanged s) :
    IsForm library s ⟨0⟩ (.pair ⟨21⟩) conjunction [.pair ⟨4⟩, .symbol ⟨10, "q"⟩] := by
  obtain ⟨cells, frames, closures⟩ := s
  obtain ⟨rfl, hand, -⟩ := h
  exact ⟨⟨21⟩, rfl, ⟨⟨1, "and"⟩, ⟨0, "and"⟩, rfl, hand, rfl⟩, rfl⟩

private theorem isForm_cond : IsForm library machine.store ⟨0⟩ (.pair ⟨22⟩) Forms.cond
    [.pair ⟨25⟩, .pair ⟨26⟩] :=
  ⟨⟨22⟩, rfl, ⟨⟨6, "cond"⟩, ⟨5, "cond"⟩, rfl, rfl, rfl⟩, rfl⟩

private theorem expands :
    Expands setting [] ⟨0, "else"⟩ ⟨0⟩ [.pair ⟨25⟩, .pair ⟨26⟩] (.pair ⟨28⟩) machine := by
  refine ⟨.bool false, [], rfl, ?_⟩
  rw [if_neg (by decide), if_pos rfl]
  refine ⟨.pair ⟨31⟩, ⟨⟨28⟩, rfl, ⟨⟨7, "or"⟩, ⟨6, "or"⟩, rfl, rfl, rfl⟩, rfl⟩, ?_⟩
  intro v context m₁ _ h
  have hrunning := unchanged_while_running 28 (by decide)
  have hunchanged : Unchanged m₁.store :=
    h.of_moments (P := fun t => t.waiting.isEmpty → Unchanged t.machine.store) hrunning.1
      hrunning.2 rfl
  obtain ⟨⟨cells, frames, closures⟩, symbols, calls, depth, counters, output⟩ := m₁
  obtain ⟨rfl, -, hbegin⟩ := hunchanged
  refine ⟨.symbol ⟨0, "else"⟩, [.int 1], rfl, ?_⟩
  rw [if_pos (by decide)]
  exact ⟨rfl, List.cons_ne_nil _ _, ⟨31⟩, rfl, ⟨⟨8, "begin"⟩, ⟨7, "begin"⟩, rfl, hbegin, rfl⟩, rfl⟩

private theorem intern_else : machine.symbols.intern "else" = (.ok ⟨0, "else"⟩, machine.symbols) :=
  rfl

end Choosing

open Choosing in
/-- The hypotheses hold of the forms of the machine. -/
theorem choosing_forms_agree_with_if :
    Concur setting setting [] [] (evaluating 0) (evaluating 17) ∧
    Concur setting setting [] [] (evaluating 22) (evaluating 28) := by
  have hunlimited : setting.maxDepth = none := rfl
  constructor
  · obtain ⟨-, -, -, hand, -⟩ :=
      conditional_forms_agree_with_if hunlimited [] [] machine ⟨0⟩ (.pair ⟨0⟩)
    refine hand _ _ _ _ _ isForm_and isForm_if fun v context m₁ _ h => isForm_rest ?_
    have hrunning := unchanged_while_running 17 (by decide)
    exact h.of_moments (P := fun t => t.waiting.isEmpty → Unchanged t.machine.store) hrunning.1
      hrunning.2 rfl
  · obtain ⟨hcond, -⟩ :=
      conditional_forms_agree_with_if hunlimited [] [] machine ⟨0⟩ (.pair ⟨22⟩)
    exact (hcond _ isForm_cond).1 _ _ _ intern_else expands

open Choosing in
/-- The `if` form has let go of its own pairs when `q` is defined, so that the procedure is named; the
`and` form still holds the procedure. -/
theorem if_names_what_and_does_not :
    IsForm library machine.store ⟨0⟩ (.pair ⟨0⟩) conjunction
      [.closure ⟨0⟩, .pair ⟨4⟩, .symbol ⟨10, "q"⟩] ∧
    IsForm library machine.store ⟨0⟩ (.pair ⟨17⟩) conditional
      [.closure ⟨0⟩, .pair ⟨21⟩, .bool false] ∧
    IsForm library machine.store ⟨0⟩ (.pair ⟨21⟩) conjunction [.pair ⟨4⟩, .symbol ⟨10, "q"⟩] ∧
    ∃ m m', Finishes setting [] (evaluating 0) (.ok (.closure ⟨0⟩)) m ∧
      Finishes setting [] (evaluating 17) (.ok (.closure ⟨0⟩)) m' ∧
      (m.store.closure ⟨0⟩).name = none ∧ (m'.store.closure ⟨0⟩).name = some "q" := by
  obtain ⟨m, hfin, hnone⟩ : ∃ m, Finishes setting [] (evaluating 0) (.ok (.closure ⟨0⟩)) m ∧
      (m.store.closure ⟨0⟩).name = none :=
    exists_finishes (fun m => (m.store.closure ⟨0⟩).name) 60 (by decide +kernel)
  obtain ⟨m', hfin', hsome⟩ : ∃ m, Finishes setting [] (evaluating 17) (.ok (.closure ⟨0⟩)) m ∧
      (m.store.closure ⟨0⟩).name = some "q" :=
    exists_finishes (fun m => (m.store.closure ⟨0⟩).name) 60 (by decide +kernel)
  exact ⟨isForm_and, isForm_if, isForm_rest ⟨rfl, rfl, rfl⟩, m, m', hfin, hfin', hnone, hsome⟩

end MiniScheme
