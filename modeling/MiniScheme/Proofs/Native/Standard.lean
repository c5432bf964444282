import MiniScheme.Proofs.Native.Forms
import MiniScheme.Standard
/-! # The standard library keeps to the rules

Native procedures ask for no evaluation and change no frame, so they keep to all lawful rules; the
forms do so as far as the assignment in `set!` does.
-/
namespace MiniScheme

variable {α : Type} {R : Rules} (h : R.Lawful)

open Native

namespace Procedures

variable {free : Native α → Prop} {post : α → Prop}

include h

private theorem obeys_wrongArgument (procedure expected : String) (got : Value) :
    (wrongArgument procedure expected got : Native α).Obeys R free post :=
  obeys_bind h (obeys_read h _) fun _ _ => obeys_fail h _

private theorem obeys_unary (name : String) {body : Value → Native Value}
    {free : Native Value → Prop} (hbody : ∀ a, (body a).Obeys R free always) (args : List Value) :
    (unary name body args).Obeys R free always := by
  unfold unary
  split
  · exact hbody _
  · exact obeys_fail h _

private theorem obeys_binary (name : String) {body : Value → Value → Native Value}
    {free : Native Value → Prop} (hbody : ∀ a b, (body a b).Obeys R free always)
    (args : List Value) : (binary name body args).Obeys R free always := by
  unfold binary
  split
  · exact hbody _ _
  · exact obeys_fail h _

private theorem obeys_numbers (procedure : String) (args : List Value)
    {free : Native (List Number) → Prop} : (numbers procedure args).Obeys R free always := by
  have hafter (reversed : List Number) :
      (numbersAfter procedure reversed args).Obeys R free always := by
    induction args generalizing reversed with
    | nil => exact obeys_pure h trivial
    | cons v args ih =>
      rw [numbersAfter]
      split
      · exact ih _
      · exact obeys_wrongArgument h _ _ _
  exact hafter []

private theorem obeys_numbers₁ (procedure : String) (args : List Value)
    {free : Native (Number × List Number) → Prop} :
    (numbers₁ procedure args).Obeys R free always := by
  refine obeys_bind h (obeys_numbers h _ _) fun ns _ => ?_
  split
  · exact obeys_pure h trivial
  · exact obeys_fail h _

omit h

private theorem obeys_numeric {v : Value} {onInt : Int64 → Native Value}
    {onFloat : Double → Native Value}
    {other : Native Value} (hint : ∀ n, (onInt n).Obeys R never always)
    (hfloat : ∀ d, (onFloat d).Obeys R never always) (hother : other.Obeys R never always) :
    (match Number.ofValue? v with
      | some (.int n) => onInt n
      | some (.float d) => onFloat d
      | none => other).Obeys R never always := by
  split
  · exact hint _
  · exact hfloat _
  · exact hother

private theorem obeys_counted {count : Option Nat} {onSome : Nat → Native Value}
    {other : Native Value}
    (hsome : ∀ n, (onSome n).Obeys R never always) (hother : other.Obeys R never always) :
    (match count with
      | some n => onSome n
      | none => other).Obeys R never always := by
  cases count with
  | some n => exact hsome n
  | none => exact hother

include h

private theorem obeys_integerDivision (name : String) (op : Int64 → Int64 → Option Int64)
    (args : List Value) : (integerDivision name op args).Obeys R never always := by
  refine obeys_binary h name (fun a b => ?_) args
  split
  · split
    · split
      · exact obeys_fail h _
      · split
        · exact obeys_pure h trivial
        · exact obeys_fail h _
    · exact obeys_wrongArgument h _ _ _
  · exact obeys_wrongArgument h _ _ _

private theorem obeys_abs (args : List Value) : (abs args).Obeys R never always := by
  apply obeys_unary h
  intro v
  -- The double and the word are kept out of the case split: their definitions open into huge terms.
  refine obeys_numeric (fun n => ?_) (fun d => obeys_pure h trivial) (obeys_wrongArgument h _ _ _)
  cases Word.abs? n with
  | some r => exact obeys_pure h trivial
  | none => exact obeys_fail h _

private theorem obeys_arithmetic : ∀ p ∈ arithmetic, ∀ args, (p.2.2 args).Obeys R never always := by
  have hnumber (r : Except EvalError Number) : (ofNumber r).Obeys R never always :=
    obeys_ofExcept h _
  have hextremum (name : String) (wins : Ordering) (args : List Value) :
      (extremum name wins args).Obeys R never always := by
    refine obeys_bind h (obeys_numbers₁ h _ _) fun ns _ => ?_
    dsimp only
    split <;> exact obeys_pure h trivial
  have hcomparison (name : String) (holds : Ordering → Bool) (args : List Value) :
      (comparison name holds args).Obeys R never always :=
    obeys_bind h (obeys_numbers h _ _) fun _ _ => obeys_pure h trivial
  have hsubtract (args : List Value) : (subtract args).Obeys R never always := by
    refine obeys_bind h (obeys_numbers₁ h _ _) fun ns _ => ?_
    split <;> exact hnumber _
  have hdivide (args : List Value) : (divide args).Obeys R never always := by
    refine obeys_bind h (obeys_numbers₁ h _ _) fun ns _ => ?_
    split <;> exact hnumber _
  intro p hp args
  simp only [arithmetic, List.mem_cons, List.not_mem_nil, or_false] at hp
  rcases hp with rfl | rfl | rfl | rfl | rfl | rfl | rfl | rfl | rfl | rfl | rfl | rfl | rfl | rfl |
    rfl
  · exact obeys_bind h (obeys_numbers h _ _) fun _ _ => hnumber _
  · exact hsubtract args
  · exact obeys_bind h (obeys_numbers h _ _) fun _ _ => hnumber _
  · exact hdivide args
  · exact obeys_integerDivision h _ _ args
  · exact obeys_integerDivision h _ _ args
  · exact obeys_integerDivision h _ _ args
  · exact obeys_abs h args
  · exact hextremum _ _ args
  · exact hextremum _ _ args
  all_goals exact hcomparison _ _ args

private theorem obeys_onPair (name : String) (v : Value) {body : CellId → Native α}
    (hbody : ∀ c, (body c).Obeys R free post) : (onPair name v body).Obeys R free post := by
  unfold onPair
  split
  · exact hbody _
  · exact obeys_wrongArgument h _ _ _

private theorem obeys_length (args : List Value) : (length args).Obeys R never always := by
  refine obeys_unary h _ (fun v => ?_) args
  refine obeys_bind h (obeys_read h _) fun count _ => ?_
  apply obeys_counted
  · intro n
    cases Word.ofInt? n with
    | some w => exact obeys_pure h trivial
    | none => exact obeys_fail h _
  · exact obeys_fail h _

private theorem obeys_append (args : List Value) : (append args).Obeys R never always := by
  unfold append
  split
  · exact obeys_pure h trivial
  · refine obeys_bind h (obeys_read h _) fun parts _ => ?_
    refine obeys_bind h (obeys_ofExcept h _) fun reversed _ => ?_
    exact obeys_update fun store _ => ⟨h.of_frames_eq (store.frames_consAll _ _), trivial⟩

private theorem obeys_lists : ∀ p ∈ lists, ∀ args, (p.2.2 args).Obeys R never always := by
  have hchange (name : String) (f : CellId → Value → Store → Store)
      (hf : ∀ c v store, (f c v store).frames = store.frames) (args : List Value) :
      (binary name (fun v new => onPair name v fun c => do
        Native.change (f c new)
        return .unspecified) args).Obeys R never always := by
    refine obeys_binary h _ (fun v new => obeys_onPair h _ v fun c => ?_) args
    refine obeys_bind h (obeys_change fun store _ => h.of_frames_eq (hf c new store)) fun _ _ => ?_
    exact obeys_pure h trivial
  intro p hp args
  simp only [lists, List.mem_cons, List.not_mem_nil, or_false] at hp
  rcases hp with rfl | rfl | rfl | rfl | rfl | rfl | rfl | rfl | rfl
  · refine obeys_binary h _ (fun first rest => ?_) args
    exact obeys_update fun store _ => ⟨h.of_frames_eq rfl, trivial⟩
  · exact obeys_unary h _ (fun v => obeys_onPair h _ v fun c => obeys_read h _) args
  · exact obeys_unary h _ (fun v => obeys_onPair h _ v fun c => obeys_read h _) args
  · exact hchange "set-car!" (fun c v store => store.setFirst c v) (fun _ _ _ => rfl) args
  · exact hchange "set-cdr!" (fun c v store => store.setRest c v) (fun _ _ _ => rfl) args
  · exact obeys_list h args
  · exact obeys_length h args
  · refine obeys_unary h _ (fun v => ?_) args
    refine obeys_bind h (obeys_read h _) fun items _ => ?_
    exact obeys_bind h (obeys_ofExcept h _) fun items _ => obeys_list h _
  · exact obeys_append h args

private theorem obeys_predicates : ∀ p ∈ predicates, ∀ args, (p.2.2 args).Obeys R never always := by
  have hpredicate (name : String) (test : Value → Bool) (args : List Value) :
      (predicate name test args).Obeys R never always :=
    obeys_unary h _ (fun _ => obeys_pure h trivial) args
  have hisList (args : List Value) : (isList args).Obeys R never always := by
    refine obeys_unary h _ (fun v => ?_) args
    exact obeys_bind h (obeys_read h _) fun _ _ => obeys_pure h trivial
  have hisZero (args : List Value) : (isZero args).Obeys R never always := by
    refine obeys_unary h _ (fun v => ?_) args
    split
    · exact obeys_pure h trivial
    · exact obeys_pure h trivial
    · exact obeys_wrongArgument h _ _ _
  have hisEqual (args : List Value) : (isEqual args).Obeys R never always := by
    refine obeys_binary h _ (fun a b => ?_) args
    refine obeys_bind h (obeys_read h _) fun answer _ => ?_
    split
    · exact obeys_pure h trivial
    · exact obeys_endless h
  intro p hp args
  simp only [predicates, List.mem_cons, List.not_mem_nil, or_false] at hp
  rcases hp with rfl | rfl | rfl | rfl | rfl | rfl | rfl | rfl | rfl | rfl | rfl | rfl | rfl
  · exact hpredicate _ _ args
  · exact hpredicate _ _ args
  · exact hisList args
  · exact hpredicate _ _ args
  · exact hpredicate _ _ args
  · exact hpredicate _ _ args
  · exact hpredicate _ _ args
  · exact hpredicate _ _ args
  · exact hpredicate _ _ args
  · exact hisZero args
  · exact hpredicate _ _ args
  · exact obeys_binary h _ (fun _ _ => obeys_pure h trivial) args
  · exact hisEqual args

private theorem obeys_onString (name : String) (v : Value) {body : String → Native α}
    (hbody : ∀ text, (body text).Obeys R free post) : (onString name v body).Obeys R free post := by
  unfold onString
  split
  · exact hbody _
  · exact obeys_wrongArgument h _ _ _

private theorem obeys_joined (out : String) (args : List Value) {free : Native String → Prop} :
    (joined out args).Obeys R free always := by
  induction args generalizing out with
  | nil => exact obeys_pure h trivial
  | cons v args ih => exact obeys_onString h _ v fun text => ih _

private theorem obeys_strings : ∀ p ∈ strings, ∀ args, (p.2.2 args).Obeys R never always := by
  intro p hp args
  simp only [strings, List.mem_cons, List.not_mem_nil, or_false] at hp
  rcases hp with rfl | rfl | rfl | rfl | rfl
  · refine obeys_unary h _ (fun v => obeys_onString h _ v fun text => ?_) args
    cases Word.ofInt? text.length with
    | some w => exact obeys_pure h trivial
    | none => exact obeys_fail h _
  · exact obeys_bind h (obeys_joined h _ _) fun _ _ => obeys_pure h trivial
  · refine obeys_unary h _ (fun v => ?_) args
    split
    · exact obeys_pure h trivial
    · exact obeys_wrongArgument h _ _ _
  · refine obeys_unary h _ (fun v => obeys_onString h _ v fun text => ?_) args
    exact obeys_bind h (obeys_intern h _) fun _ _ => obeys_pure h trivial
  · refine obeys_unary h _ (fun v => ?_) args
    split
    · exact obeys_bind h (obeys_text h v) fun _ _ => obeys_pure h trivial
    · exact obeys_wrongArgument h _ _ _

private theorem obeys_output : ∀ p ∈ output, ∀ args, (p.2.2 args).Obeys R never always := by
  intro p hp args
  simp only [output, List.mem_cons, List.not_mem_nil, or_false] at hp
  rcases hp with rfl | rfl
  · refine obeys_unary h _ (fun v => ?_) args
    refine obeys_bind h (obeys_read h _) fun text _ => ?_
    exact obeys_bind h (obeys_print h _) fun _ _ => obeys_pure h trivial
  · exact obeys_bind h (obeys_print h _) fun _ _ => obeys_pure h trivial

private theorem obeys_application :
    ∀ p ∈ application, ∀ args, (p.2.2 args).Obeys R never always := by
  intro p hp args
  obtain rfl := List.mem_singleton.mp hp
  change (apply args).Obeys R never always
  unfold apply
  split
  · refine obeys_bind h (obeys_read h _) fun spread _ => ?_
    exact obeys_bind h (obeys_ofExcept h _) fun spread _ => obeys_call h
  · exact obeys_fail h _

end Procedures

/-- All native code of a library keeps to the rules: procedures from any frame, forms from the frames
where the rules allow evaluation. -/
structure Library.Obeys (R : Rules) (free : Native Outcome → Prop) (l : Library) : Prop where
  procedure (b : Builtin) (args : List Value) : (l.procedure b args).Obeys R never always
  form (f : SpecialForm) (operands : Value) {env : FrameId} (henv : R.env env) :
    (l.form f operands env).Obeys R free R.outcome

namespace Standard

def library : Library where
  procedures := (procedures.map (·.2.2)).toArray
  forms := (forms.map (·.2)).toArray

private theorem getD_toArray_map {β γ : Type} {P : γ → Prop} {items : List β} {f : β → γ}
    {other : γ} (hitems : ∀ b ∈ items, P (f b)) (hother : P other) (k : Nat) :
    P ((items.map f).toArray.getD k other) := by
  rw [Array.getD_eq_getD_getElem?, List.getElem?_toArray, List.getElem?_map]
  cases hk : items[k]? with
  | none => exact hother
  | some b => exact hitems b (List.mem_of_getElem? hk)

include h

private theorem obeys_procedures : ∀ p ∈ procedures, ∀ args, (p.2.2 args).Obeys R never always := by
  intro p hp
  simp only [procedures, List.mem_append] at hp
  rcases hp with ((((hp | hp) | hp) | hp) | hp) | hp
  · exact Procedures.obeys_arithmetic h p hp
  · exact Procedures.obeys_lists h p hp
  · exact Procedures.obeys_predicates h p hp
  · exact Procedures.obeys_strings h p hp
  · exact Procedures.obeys_output h p hp
  · exact Procedures.obeys_application h p hp

private theorem obeys_forms {free : Native Outcome → Prop}
    (hfree : ∀ env x v, R.env env → free (Forms.assignment env x v) ∨
      (Forms.assignment env x v).Obeys R free R.outcome) :
    ∀ p ∈ forms, ∀ operands env, R.env env → (p.2 operands env).Obeys R free R.outcome := by
  intro p hp operands env henv
  simp only [forms, List.mem_cons, List.not_mem_nil, or_false] at hp
  rcases hp with rfl | rfl | rfl | rfl | rfl | rfl | rfl | rfl | rfl | rfl | rfl
  · exact Forms.obeys_quote h operands env
  · exact Forms.obeys_conditional h operands henv
  · exact Forms.obeys_begin h operands henv
  · exact Forms.obeys_cond h operands henv
  · exact Forms.obeys_conjunction h operands henv
  · exact Forms.obeys_disjunction h operands henv
  · exact Forms.obeys_define h operands henv
  · exact Forms.obeys_assign h operands henv fun x v => hfree env x v henv
  · exact Forms.obeys_lambda h operands env
  · exact Forms.obeys_letForm h operands henv
  · exact Forms.obeys_letStar h operands henv

theorem obeys_library {free : Native Outcome → Prop}
    (hfree : ∀ env x v, R.env env → free (Forms.assignment env x v) ∨
      (Forms.assignment env x v).Obeys R free R.outcome) :
    library.Obeys R free where
  procedure b args :=
    getD_toArray_map (P := fun body : NativeProcedure => (body args).Obeys R never always)
      (fun p hp => obeys_procedures h p hp args) (obeys_fail h _) b.id
  form f operands env henv :=
    getD_toArray_map (P := fun rule : NativeForm => (rule operands env).Obeys R free R.outcome)
      (fun p hp => obeys_forms h hfree p hp operands env henv) (obeys_fail h _) f.id

end Standard
end MiniScheme
