import MiniScheme.Proofs.Alike.Forms
import MiniScheme.Proofs.Native.Standard
/-! # The standard library is alike to itself

Native procedures treat alike arguments alike: arithmetic sees no symbols, list operations move values
about, and the only symbols that are new come from interning a name.
-/
namespace MiniScheme

variable {K : Terms} {L L' : Link K} {α : Type} {P : Link K → α → α → Prop}

private theorem Values.dropLast {vs ws : List Value} (h : Values L vs ws) :
    Values L vs.dropLast ws.dropLast := by
  rw [List.dropLast_eq_take, List.dropLast_eq_take, ← h.length_eq]
  exact List.forall₂_take _ h

private theorem Values.getLast? {vs ws : List Value} (h : Values L vs ws) :
    Option.Rel (Value.Alike L) vs.getLast? ws.getLast? := by
  have hreverse : Values L vs.reverse ws.reverse := List.rel_reverse h
  rw [← List.head?_reverse, ← List.head?_reverse]
  generalize vs.reverse = vs at hreverse
  generalize ws.reverse = ws at hreverse
  cases hreverse with
  | nil => exact .none
  | cons hv _ => exact .some hv

private theorem Number.ofValue?_eq {v w : Value} (h : v.Alike L w) :
    Number.ofValue? w = Number.ofValue? v :=
  h.congr (fun _ _ => rfl) fun _ _ => rfl

open Native

namespace Procedures

private theorem alike_wrongArgument (procedure expected : String) {v w : Value} (hv : v.Alike L w) :
    (wrongArgument procedure expected v : Native α).Alike L P
      (wrongArgument procedure expected w) := by
  refine alike_bind (P := fun _ e e' => e' = e ∧ e.isInternal = false) (alike_read ?_) ?_
  · intro s s' hs
    exact ⟨hs.wrongArgument_eq procedure expected hv, rfl⟩
  · rintro L' hle e _ ⟨rfl, he⟩
    exact alike_fail (K.error_of_not_internal he)

private theorem alike_unary (name : String) {body : Value → Native Value}
    (hbody : ∀ v w, v.Alike L w → (body v).Alike L Value.Alike (body w))
    {args args' : List Value} (hargs : Values L args args') :
    (unary name body args).Alike L Value.Alike (unary name body args') := by
  have hlength := hargs.length_eq
  obtain _ | ⟨hv, _ | _⟩ := hargs
  · exact alike_fail (K.error_of_not_internal rfl)
  · exact hbody _ _ hv
  · simp only [unary, ← hlength]
    exact alike_fail (K.error_of_not_internal rfl)

private theorem alike_binary (name : String) {body : Value → Value → Native Value}
    (hbody : ∀ v v', v.Alike L v' → ∀ w w', w.Alike L w' →
      (body v w).Alike L Value.Alike (body v' w'))
    {args args' : List Value} (hargs : Values L args args') :
    (binary name body args).Alike L Value.Alike (binary name body args') := by
  have hlength := hargs.length_eq
  obtain _ | ⟨hv, _ | ⟨hw, _ | _⟩⟩ := hargs
  · exact alike_fail (K.error_of_not_internal rfl)
  · exact alike_fail (K.error_of_not_internal rfl)
  · exact hbody _ _ hv _ _ hw
  · simp only [binary, ← hlength]
    exact alike_fail (K.error_of_not_internal rfl)

private theorem alike_numbers (procedure : String) {args args' : List Value}
    (hargs : Values L args args') :
    (numbers procedure args).Alike L Same (numbers procedure args') := by
  have hafter (reversed : List Number) :
      (numbersAfter procedure reversed args).Alike L Same
        (numbersAfter procedure reversed args') := by
    induction hargs generalizing reversed with
    | nil => exact alike_pure rfl
    | cons hv _ ih =>
      rw [numbersAfter, numbersAfter, Number.ofValue?_eq hv]
      split
      · exact ih _
      · exact alike_wrongArgument _ _ hv
  exact hafter []

private theorem alike_numbers₁ (procedure : String) {args args' : List Value}
    (hargs : Values L args args') :
    (numbers₁ procedure args).Alike L Same (numbers₁ procedure args') := by
  refine alike_bind (alike_numbers procedure hargs) ?_
  rintro L' hle ns _ rfl
  split
  · exact alike_pure rfl
  · exact alike_fail (K.error_of_not_internal rfl)

private theorem alike_numeric {v w : Value} (hv : v.Alike L w) {onInt : Int64 → Native Value}
    {onFloat : Double → Native Value} {other other' : Native Value}
    (hint : ∀ n, (onInt n).Alike L Value.Alike (onInt n))
    (hfloat : ∀ d, (onFloat d).Alike L Value.Alike (onFloat d))
    (hother : other.Alike L Value.Alike other') :
    (match Number.ofValue? v with
      | some (.int n) => onInt n
      | some (.float d) => onFloat d
      | none => other).Alike L Value.Alike
    (match Number.ofValue? w with
      | some (.int n) => onInt n
      | some (.float d) => onFloat d
      | none => other') := by
  rw [Number.ofValue?_eq hv]
  split
  · exact hint _
  · exact hfloat _
  · exact hother

theorem alike_word (r : Option Int64) {e : EvalError} (he : e.isInternal = false) :
    (match r with
      | some n => pure (.int n)
      | none => Native.fail e : Native Value).Alike L Value.Alike
    (match r with
      | some n => pure (.int n)
      | none => Native.fail e) := by
  cases r with
  | some n => exact alike_pure (.same trivial)
  | none => exact alike_fail (K.error_of_not_internal he)

/-- Whatever goes wrong in arithmetic, no invariant is broken. -/
def Regular (r : Except EvalError Number) : Prop := ∀ e, r = .error e → e.isInternal = false

private theorem regular_apply (op : Operation) (m n : Number) : Regular (op.apply m n) := by
  intro e he
  unfold Operation.apply at he
  split at he
  · split at he
    · simp at he
    · obtain rfl := Except.error.inj he
      rfl
  · simp at he

private theorem regular_fold (op : Operation) (start : Number) (ns : List Number) :
    Regular (op.fold start ns) := by
  induction ns generalizing start with
  | nil => simp [Operation.fold, Regular]
  | cons n ns ih =>
    rw [Operation.fold]
    split
    · exact ih _
    · next he =>
      intro e' he'
      obtain rfl := Except.error.inj he'
      exact regular_apply op start n _ he

private theorem regular_divide (m n : Number) : Regular (m.divide n) := by
  intro e he
  unfold Number.divide at he
  split at he
  · split at he
    · obtain rfl := Except.error.inj he
      rfl
    · split at he
      · split at he <;> simp at he
      · obtain rfl := Except.error.inj he
        rfl
  · split at he
    · obtain rfl := Except.error.inj he
      rfl
    · simp at he

private theorem regular_divideAll (m : Number) (ns : List Number) : Regular (m.divideAll ns) := by
  induction ns generalizing m with
  | nil => simp [Number.divideAll, Regular]
  | cons n ns ih =>
    rw [Number.divideAll]
    split
    · exact ih _
    · next he =>
      intro e' he'
      obtain rfl := Except.error.inj he'
      exact regular_divide m n _ he

private theorem alike_toValue (n : Number) : n.toValue.Alike L n.toValue := by
  cases n <;> exact .same trivial

private theorem alike_ofNumber {r : Except EvalError Number} (h : Regular r) :
    (ofNumber r).Alike L Value.Alike (ofNumber r) := by
  apply alike_ofExcept
  cases r with
  | ok n => exact .ok (alike_toValue n)
  | error e => exact .error (K.error_of_not_internal (h e rfl))

private theorem alike_integerDivision (name : String) (op : Int64 → Int64 → Option Int64)
    {args args' : List Value} (hargs : Values L args args') :
    (integerDivision name op args).Alike L Value.Alike (integerDivision name op args') := by
  refine alike_binary name (fun v v' hv w w' hw => ?_) hargs
  cases hv with
  | symbol hx => exact alike_wrongArgument _ _ (.symbol hx)
  | @same v hv =>
    cases v with
    | int x =>
      cases hw with
      | symbol hy => exact alike_wrongArgument _ _ (.symbol hy)
      | @same w hw =>
        cases w with
        | int y =>
          dsimp only [Value.rename]
          split
          · exact alike_fail (K.error_of_not_internal rfl)
          · exact alike_word _ rfl
        | _ => exact alike_wrongArgument _ _ (.same hw)
    | _ => exact alike_wrongArgument _ _ (.same hv)

private theorem alike_abs {args args' : List Value} (hargs : Values L args args') :
    (abs args).Alike L Value.Alike (abs args') := by
  refine alike_unary _ (fun v w hv => ?_) hargs
  apply alike_numeric hv
  · intro n
    -- The word is kept out of the match: its definition opens into a huge term.
    generalize Word.abs? n = r
    exact alike_word r rfl
  · intro d
    exact alike_pure (.same trivial)
  · exact alike_wrongArgument _ _ hv

private theorem alike_extremum (name : String) (wins : Ordering) {args args' : List Value}
    (hargs : Values L args args') :
    (extremum name wins args).Alike L Value.Alike (extremum name wins args') := by
  refine alike_bind (alike_numbers₁ name hargs) ?_
  rintro L' hle ns _ rfl
  dsimp only
  split
  · exact alike_pure (.same trivial)
  · exact alike_pure (alike_toValue _)

private theorem alike_subtract {args args' : List Value} (hargs : Values L args args') :
    (subtract args).Alike L Value.Alike (subtract args') := by
  refine alike_bind (alike_numbers₁ _ hargs) ?_
  rintro L' hle ns _ rfl
  split
  · exact alike_ofNumber (regular_apply _ _ _)
  · exact alike_ofNumber (regular_fold _ _ _)

private theorem alike_divide {args args' : List Value} (hargs : Values L args args') :
    (divide args).Alike L Value.Alike (divide args') := by
  refine alike_bind (alike_numbers₁ _ hargs) ?_
  rintro L' hle ns _ rfl
  split
  · exact alike_ofNumber (regular_divide _ _)
  · exact alike_ofNumber (regular_divideAll _ _)

def Even (K : Terms) (body : NativeProcedure) : Prop :=
  ∀ (L : Link K) (args args' : List Value), Values L args args' →
    (body args).Alike L Value.Alike (body args')

private theorem even_arithmetic : ∀ p ∈ arithmetic, Even K p.2.2 := by
  have hsum (op : Operation) (name : String) (start : Number) :
      Even K (fun args => do ofNumber (op.fold start (← numbers name args))) := by
    intro L args args' hargs
    refine alike_bind (alike_numbers name hargs) ?_
    rintro L' hle ns _ rfl
    exact alike_ofNumber (regular_fold _ _ _)
  have hcomparison (name : String) (holds : Ordering → Bool) : Even K (comparison name holds) := by
    intro L args args' hargs
    refine alike_bind (alike_numbers name hargs) ?_
    rintro L' hle ns _ rfl
    exact alike_pure (.same trivial)
  intro p hp
  simp only [arithmetic, List.mem_cons, List.not_mem_nil, or_false] at hp
  rcases hp with rfl | rfl | rfl | rfl | rfl | rfl | rfl | rfl | rfl | rfl | rfl | rfl | rfl | rfl |
    rfl
  · exact hsum .addition _ _
  · exact fun _ _ _ => alike_subtract
  · exact hsum .multiplication _ _
  · exact fun _ _ _ => alike_divide
  · exact fun _ _ _ => alike_integerDivision _ _
  · exact fun _ _ _ => alike_integerDivision _ _
  · exact fun _ _ _ => alike_integerDivision _ _
  · exact fun _ _ _ => alike_abs
  · exact fun _ _ _ => alike_extremum _ _
  · exact fun _ _ _ => alike_extremum _ _
  all_goals exact hcomparison _ _

private theorem alike_onPair (name : String) {v w : Value} (hv : v.Alike L w)
    {body body' : CellId → Native α} (hbody : ∀ c, (body c).Alike L P (body' c)) :
    (onPair name v body).Alike L P (onPair name w body') := by
  cases hv with
  | symbol hx => exact alike_wrongArgument _ _ (.symbol hx)
  | @same v hfits =>
    cases v with
    | pair c => exact hbody c
    | _ => exact alike_wrongArgument _ _ (.same hfits)

private theorem alike_counted (count : Option Nat) {onSome : Nat → Native Value}
    {other other' : Native Value} (hsome : ∀ n, (onSome n).Alike L Value.Alike (onSome n))
    (hother : other.Alike L Value.Alike other') :
    (match count with
      | some n => onSome n
      | none => other).Alike L Value.Alike
    (match count with
      | some n => onSome n
      | none => other') := by
  cases count with
  | some n => exact hsome n
  | none => exact hother

private theorem alike_length {args args' : List Value} (hargs : Values L args args') :
    (length args).Alike L Value.Alike (length args') := by
  refine alike_unary _ (fun v w hv => ?_) hargs
  refine alike_bind (P := Same) (alike_read fun _ _ hs => (hs.listLength_eq hv).symm) ?_
  rintro L' hle count _ rfl
  apply alike_counted
  · intro n
    generalize Word.ofInt? n = r
    exact alike_word r rfl
  · simp only [notAList, EvalError.typeMismatch, hv.typeName_eq]
    exact alike_fail (K.error_of_not_internal rfl)

private theorem listArgument_alike {s s' : Store} (hs : s.Alike L s') (name : String) {v w : Value}
    (hv : v.Alike L w) : Answer K.error (Values L) (listArgument s name v) (listArgument s' name w) := by
  have hspine := hs.spine hv
  simp only [listArgument, hs.listLength_eq hv, notAList, EvalError.typeMismatch, hv.typeName_eq]
  generalize s.spine v = spine at hspine
  generalize s'.spine w = spine' at hspine
  cases s.listLength v with
  | none => exact .error (K.error_of_not_internal rfl)
  | some n =>
    cases hspine with
    | proper h => exact .ok h
    | improper _ _ => exact .error (K.error_of_not_internal rfl)
    | circular => exact .error (K.error_of_not_internal rfl)

private theorem alike_listArgument (name : String) {v w : Value} (hv : v.Alike L w) :
    (Native.read fun s => listArgument s name v).Alike L (fun L => Answer K.error (Values L))
      (Native.read fun s => listArgument s name w) :=
  alike_read fun _ _ hs => listArgument_alike hs name hv

private theorem concatenation_alike {s s' : Store} (hs : s.Alike L s')
    {reversed reversed' : List Value}
    (hreversed : Values L reversed reversed') {vs ws : List Value} (hvs : Values L vs ws) :
    Answer K.error (Values L) (concatenation s reversed vs) (concatenation s' reversed' ws) := by
  induction hvs generalizing reversed reversed' with
  | nil => exact .ok hreversed
  | @cons v w vs ws hv _ ih =>
    have hitems := listArgument_alike hs "append" hv
    rw [concatenation, concatenation]
    generalize listArgument s "append" v = items at hitems
    generalize listArgument s' "append" w = items' at hitems
    cases hitems with
    | ok h => exact ih (List.rel_append (List.rel_reverse h) hreversed)
    | error h => exact .error h

private theorem alike_append {args args' : List Value} (hargs : Values L args args') :
    (append args).Alike L Value.Alike (append args') := by
  have hlast := hargs.getLast?
  unfold append
  generalize args.getLast? = last at hlast
  generalize args'.getLast? = last' at hlast
  cases hlast with
  | none => exact alike_pure (.same trivial)
  | some htail =>
    refine alike_bind (P := fun L => Answer K.error (Values L))
      (alike_read fun _ _ hs => concatenation_alike hs .nil hargs.dropLast) ?_
    intro L₁ hle₁ parts parts' hparts
    refine alike_bind (alike_ofExcept hparts) ?_
    intro L₂ hle₂ reversed reversed' hreversed
    exact alike_update (.refl _) fun _ _ hs => hs.consAll (htail.mono (hle₁.trans hle₂)) hreversed

theorem even_lists : ∀ p ∈ lists, Even K p.2.2 := by
  intro p hp L args args' hargs
  simp only [lists, List.mem_cons, List.not_mem_nil, or_false] at hp
  rcases hp with rfl | rfl | rfl | rfl | rfl | rfl | rfl | rfl | rfl
  · refine alike_binary _ (fun v v' hv w w' hw => ?_) hargs
    exact alike_update (.refl L) fun _ _ hs => hs.cons hv hw
  · refine alike_unary _ (fun v w hv => alike_onPair _ hv fun c => ?_) hargs
    exact alike_read fun _ _ hs => hs.first c
  · refine alike_unary _ (fun v w hv => alike_onPair _ hv fun c => ?_) hargs
    exact alike_read fun _ _ hs => hs.rest c
  · refine alike_binary _ (fun v v' hv w w' hw => alike_onPair _ hv fun c => ?_) hargs
    refine alike_bind (alike_change fun _ _ hs => hs.setFirst c hw) ?_
    exact fun _ _ _ _ _ => alike_pure (.same trivial)
  · refine alike_binary _ (fun v v' hv w w' hw => alike_onPair _ hv fun c => ?_) hargs
    refine alike_bind (alike_change fun _ _ hs => hs.setRest c hw) ?_
    exact fun _ _ _ _ _ => alike_pure (.same trivial)
  · exact alike_list hargs
  · exact alike_length hargs
  · refine alike_unary _ (fun v w hv => ?_) hargs
    refine alike_bind (alike_listArgument _ hv) ?_
    intro L₁ hle₁ items items' hitems
    refine alike_bind (alike_ofExcept hitems) ?_
    exact fun _ _ _ _ hitems => alike_list (List.rel_reverse hitems)
  · exact alike_append hargs

private theorem even_predicates : ∀ p ∈ predicates, Even K p.2.2 := by
  have hpredicate (name : String) (test : Value → Bool)
      (htest : ∀ (L : Link K) (v w : Value), v.Alike L w → test w = test v) :
      Even K (predicate name test) := by
    intro L args args' hargs
    refine alike_unary _ (fun v w hv => ?_) hargs
    rw [htest L v w hv]
    exact alike_pure (.same trivial)
  intro p hp
  simp only [predicates, List.mem_cons, List.not_mem_nil, or_false] at hp
  rcases hp with rfl | rfl | rfl | rfl | rfl | rfl | rfl | rfl | rfl | rfl | rfl | rfl | rfl
  · exact hpredicate _ _ fun _ _ _ hv => hv.isNull_eq
  · exact hpredicate _ _ fun _ _ _ hv => hv.isPair_eq
  · intro L args args' hargs
    refine alike_unary _ (fun v w hv => ?_) hargs
    refine alike_bind (P := Same)
      (alike_read fun _ _ hs => (congrArg Option.isSome (hs.listLength_eq hv)).symm) ?_
    rintro L' hle answer _ rfl
    exact alike_pure (.same trivial)
  · exact hpredicate _ _ fun _ _ _ hv => hv.congr (fun _ _ => rfl) fun _ _ => rfl
  · exact hpredicate _ _ fun _ _ _ hv => hv.congr (fun _ _ => rfl) fun _ _ => rfl
  · exact hpredicate _ _ fun _ _ _ hv => hv.congr (fun _ _ => rfl) fun _ _ => rfl
  · exact hpredicate _ _ fun _ _ _ hv => hv.congr (fun _ _ => rfl) fun _ _ => rfl
  · exact hpredicate _ _ fun _ _ _ hv => hv.congr (fun _ _ => rfl) fun _ _ => rfl
  · exact hpredicate _ _ fun _ _ _ hv => hv.congr (fun _ _ => rfl) fun _ _ => rfl
  · intro L args args' hargs
    refine alike_unary _ (fun v w hv => ?_) hargs
    cases hv with
    | symbol hx => exact alike_wrongArgument _ _ (.symbol hx)
    | @same v hfits =>
      cases v with
      | int n => exact alike_pure (.same trivial)
      | float d => exact alike_pure (.same trivial)
      | _ => exact alike_wrongArgument _ _ (.same hfits)
  · exact hpredicate _ _ fun _ _ _ hv => congrArg not hv.isTrue_eq
  · intro L args args' hargs
    refine alike_binary _ (fun v v' hv w w' hw => ?_) hargs
    rw [hv.same_eq hw]
    exact alike_pure (.same trivial)
  · intro L args args' hargs
    refine alike_binary _ (fun v v' hv w w' hw => ?_) hargs
    refine alike_bind (P := Same) (alike_read fun _ _ hs => (hs.equal?_eq hv hw).symm) ?_
    rintro L' hle answer _ rfl
    split
    · exact alike_pure (.same trivial)
    · exact alike_endless

private theorem alike_onString (name : String) {v w : Value} (hv : v.Alike L w)
    {body body' : String → Native α} (hbody : ∀ text, (body text).Alike L P (body' text)) :
    (onString name v body).Alike L P (onString name w body') := by
  cases hv with
  | symbol hx => exact alike_wrongArgument _ _ (.symbol hx)
  | @same v hfits =>
    cases v with
    | str text => exact hbody text
    | _ => exact alike_wrongArgument _ _ (.same hfits)

private theorem alike_joined (out : String) {args args' : List Value}
    (hargs : Values L args args') :
    (joined out args).Alike L Same (joined out args') := by
  induction hargs generalizing out with
  | nil => exact alike_pure rfl
  | cons hv _ ih => exact alike_onString _ hv fun text => ih _

theorem even_strings : ∀ p ∈ strings, Even K p.2.2 := by
  intro p hp L args args' hargs
  simp only [strings, List.mem_cons, List.not_mem_nil, or_false] at hp
  rcases hp with rfl | rfl | rfl | rfl | rfl
  · refine alike_unary _ (fun v w hv => alike_onString _ hv fun text => ?_) hargs
    generalize Word.ofInt? text.length = r
    exact alike_word r rfl
  · refine alike_bind (alike_joined _ hargs) ?_
    rintro L' hle text _ rfl
    exact alike_pure (.same trivial)
  · refine alike_unary _ (fun v w hv => ?_) hargs
    cases hv with
    | symbol hx =>
      dsimp only
      rw [L.name_eq hx]
      exact alike_pure (.same trivial)
    | @same v hfits =>
      cases v with
      | symbol x => exact hfits.elim
      | _ => exact alike_wrongArgument _ _ (.same hfits)
  · refine alike_unary _ (fun v w hv => alike_onString _ hv fun text => ?_) hargs
    refine alike_bind (alike_intern text) ?_
    exact fun _ _ _ _ hx => alike_pure (.symbol hx)
  · refine alike_unary _ (fun v w hv => ?_) hargs
    have hnumber : w.isNumber = v.isNumber := hv.congr (fun _ _ => rfl) fun _ _ => rfl
    rw [hnumber]
    split
    · refine alike_bind (alike_text hv) ?_
      rintro L' hle text _ rfl
      exact alike_pure (.same trivial)
    · exact alike_wrongArgument _ _ hv

private theorem even_output : ∀ p ∈ output, Even K p.2.2 := by
  intro p hp L args args' hargs
  simp only [output, List.mem_cons, List.not_mem_nil, or_false] at hp
  rcases hp with rfl | rfl
  · refine alike_unary _ (fun v w hv => ?_) hargs
    refine alike_bind (P := Same) (alike_read fun _ _ hs => (hs.displayText_eq hv).symm) ?_
    rintro L' hle text _ rfl
    refine alike_bind (alike_print text) ?_
    exact fun _ _ _ _ _ => alike_pure (.same trivial)
  · refine alike_bind (alike_print _) ?_
    exact fun _ _ _ _ _ => alike_pure (.same trivial)

private theorem even_application : ∀ p ∈ application, Even K p.2.2 := by
  intro p hp L args args' hargs
  obtain rfl := List.mem_singleton.mp hp
  obtain _ | ⟨hprocedure, _ | ⟨hv, hmore⟩⟩ := hargs
  · exact alike_fail (K.error_of_not_internal rfl)
  · exact alike_fail (K.error_of_not_internal rfl)
  · rename_i procedure procedure' v w vs ws
    have hmore : Values L (v :: vs) (w :: ws) := .cons hv hmore
    have hlast : ((v :: vs).getLast?.getD .nil).Alike L ((w :: ws).getLast?.getD .nil) := by
      have hlast := hmore.getLast?
      generalize (v :: vs).getLast? = last at hlast
      generalize (w :: ws).getLast? = last' at hlast
      cases hlast with
      | none => exact .same trivial
      | some h => exact h
    refine alike_bind (alike_listArgument _ hlast) ?_
    intro L₁ hle₁ spread spread' hspread
    refine alike_bind (alike_ofExcept hspread) ?_
    intro L₂ hle₂ items items' hitems
    have hle := hle₁.trans hle₂
    exact alike_call (hprocedure.mono hle) (List.rel_append (Values.mono hle hmore.dropLast) hitems)
      (Held.alike_mk .nil _)

end Procedures

def Forms.Even (K : Terms) (rule : NativeForm) : Prop :=
  ∀ (L : Link K) (operands operands' : Value) (env : FrameId), operands.Alike L operands' →
    (rule operands env).Alike L Outcome.Alike (rule operands' env)

namespace Standard

theorem even_procedures : ∀ p ∈ procedures, Procedures.Even K p.2.2 := by
  intro p hp
  simp only [procedures, List.mem_append] at hp
  rcases hp with ((((hp | hp) | hp) | hp) | hp) | hp
  · exact Procedures.even_arithmetic p hp
  · exact Procedures.even_lists p hp
  · exact Procedures.even_predicates p hp
  · exact Procedures.even_strings p hp
  · exact Procedures.even_output p hp
  · exact Procedures.even_application p hp

theorem even_forms : ∀ p ∈ forms, Forms.Even K p.2 := by
  intro p hp L operands operands' env h
  simp only [forms, List.mem_cons, List.not_mem_nil, or_false] at hp
  rcases hp with rfl | rfl | rfl | rfl | rfl | rfl | rfl | rfl | rfl | rfl | rfl
  · exact Forms.alike_quote h env
  · exact Forms.alike_conditional h env
  · exact Forms.alike_begin h env
  · exact Forms.alike_cond h env
  · exact Forms.alike_conjunction h env
  · exact Forms.alike_disjunction h env
  · exact Forms.alike_define h env
  · exact Forms.alike_assign h env
  · exact Forms.alike_lambda h env
  · exact Forms.alike_letForm h env
  · exact Forms.alike_letStar h env

end Standard
end MiniScheme
