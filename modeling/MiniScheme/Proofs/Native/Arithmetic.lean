import Mathlib.Algebra.BigOperators.Group.List.Basic
import Mathlib.Algebra.Ring.Int.Defs
import MiniScheme.Procedures.Arithmetic
/-! # Arithmetic of words

Integers are combined exactly, and whatever comes up on the way has to be a word: a sum, a product
or a difference is refused as soon as the arguments so far, from left to right, do not give one, no
matter what the arguments behind them would make of it. Before that all arguments have to be
numbers.

A remainder is smaller than the divisor, so it is a word. It is got from the quotient though, and
the least word has no quotient by minus one. Nothing else overflows on the way to it.
-/
namespace MiniScheme

/-- What a division of `x` by `y` leaves, with the sign of `like`. -/
structure IsRemainder (like x y r : Int) : Prop where
  dvd : y ∣ x - r
  lt : r.natAbs < y.natAbs
  sign : r = 0 ∨ (r < 0 ↔ like < 0)

namespace IsRemainder

variable {like x y r r' : Int}

private theorem unique (h : IsRemainder like x y r) (h' : IsRemainder like x y r') : r = r' := by
  have hdvd : y ∣ r - r' := by
    have hsub := Int.dvd_sub h'.dvd h.dvd
    rwa [show x - r' - (x - r) = r - r' by omega] at hsub
  obtain ⟨-, hlt, hsign⟩ := h
  obtain ⟨-, hlt', hsign'⟩ := h'
  by_contra hne
  have hle : y.natAbs ≤ (r - r').natAbs :=
    Nat.le_of_dvd (by omega) (Int.natAbs_dvd_natAbs.mpr hdvd)
  omega

private theorem tmod (x : Int) (hy : y ≠ 0) : IsRemainder x x y (x.tmod y) where
  dvd := ⟨x.tdiv y, by rw [Int.tmod_def]; omega⟩
  lt := by
    rw [Int.natAbs_tmod]
    exact Nat.mod_lt _ (by omega)
  sign := by
    by_cases hx : 0 ≤ x
    · have hnonneg := Int.tmod_nonneg y hx
      omega
    · have hnonneg := Int.tmod_nonneg y (a := -x) (by omega)
      rw [Int.neg_tmod] at hnonneg
      omega

/-- Where the sign is not that of the divisor, adding the divisor puts it right. -/
theorem turned (h : IsRemainder like x y r) :
    IsRemainder y x y (if r ≠ 0 ∧ ¬ (r < 0 ↔ y < 0) then r + y else r) := by
  obtain ⟨hdvd, hlt, -⟩ := h
  split
  · next hturns =>
    refine ⟨?_, by omega, by omega⟩
    rw [show x - (r + y) = x - r - y by omega]
    exact Int.dvd_sub hdvd (Int.dvd_refl y)
  · exact ⟨hdvd, hlt, by omega⟩

end IsRemainder

namespace Word

variable {x y : Int64}

private theorem fits_of_isRemainder {like a r : Int} (h : IsRemainder like a y.toInt r) :
    Fits r := by
  have hlt := h.lt
  have hy := fits_toInt y
  unfold Fits at *
  omega

private theorem toInt_ne_zero (hy : y ≠ 0) : y.toInt ≠ 0 := fun h => hy (Int64.toInt_inj.mp h)

private theorem fits_tdiv_iff {x y : Int} (hx : Fits x) (hy : y ≠ 0) :
    Fits (x.tdiv y) ↔ ¬ (x = -0x8000000000000000 ∧ y = -1) := by
  unfold Fits at *
  by_cases hone : y = 1
  · rw [hone, Int.tdiv_one]
    omega
  by_cases hminus : y = -1
  · rw [hminus, Int.tdiv_neg, Int.tdiv_one]
    omega
  -- Any other divisor at least halves the dividend.
  have hle : (x.tdiv y).natAbs ≤ x.natAbs / 2 := by
    rw [Int.natAbs_tdiv]
    exact Nat.div_le_div_left (by omega) (by decide)
  omega

private theorem fits_quotient_iff (hy : y ≠ 0) :
    Fits (x.toInt.tdiv y.toInt) ↔ ¬ (x = Int64.minValue ∧ y = -1) := by
  rw [fits_tdiv_iff (fits_toInt x) (toInt_ne_zero hy), ← Int64.toInt_inj,
    ← Int64.toInt_inj (x := y)]
  rfl

private theorem quotient?_eq (x y : Int64) :
    quotient? x y =
      if Fits (x.toInt.tdiv y.toInt) then ofInt? (x.toInt.tdiv y.toInt) else none := by
  split
  · rfl
  · next hfits => exact ofInt?_eq_none_iff.mpr hfits

private theorem remainder?_eq (x y : Int64) :
    remainder? x y =
      if Fits (x.toInt.tdiv y.toInt) then ofInt? (x.toInt.tmod y.toInt) else none := by
  rw [remainder?, quotient?_eq]
  by_cases hfits : Fits (x.toInt.tdiv y.toInt)
  · obtain ⟨q, hq, -⟩ := exists_ofInt? hfits
    rw [if_pos hfits, if_pos hfits, hq]
  · rw [if_neg hfits, if_neg hfits]

private theorem turns_iff {r : Int64} :
    (decide (r ≠ 0) && (decide (r < 0) != decide (y < 0))) = true ↔
      r.toInt ≠ 0 ∧ ¬ (r.toInt < 0 ↔ y.toInt < 0) := by
  have hneg (w : Int64) : w < 0 ↔ w.toInt < 0 := Int64.lt_iff_toInt_lt
  have hzero : r = 0 ↔ r.toInt = 0 := Int64.toInt_inj.symm
  simp [hneg, hzero]

private theorem modulo?_eq (hy : y ≠ 0) {m : Int} (hm : IsRemainder y.toInt x.toInt y.toInt m) :
    modulo? x y = if Fits (x.toInt.tdiv y.toInt) then ofInt? m else none := by
  have hrem := IsRemainder.tmod x.toInt (toInt_ne_zero hy)
  obtain ⟨r, hr, heq⟩ := exists_ofInt? (fits_of_isRemainder hrem)
  rw [modulo?, remainder?_eq, hr, hm.unique hrem.turned, ← heq]
  by_cases hfits : Fits (x.toInt.tdiv y.toInt)
  · simp only [if_pos hfits, turns_iff]
    split
    · rfl
    · exact (ofInt?_toInt r).symm
  · rw [if_neg hfits, if_neg hfits]

/-- What comes up when words are combined from left to right, from `start` on, are words. -/
def FitsAlong (op : Int → Int → Int) (start : Int) (ns : List Int64) : Prop :=
  ∀ first, first <+: ns → Fits ((first.map Int64.toInt).foldl op start)

variable {op : Int → Int → Int} {start : Int} {n : Int64} {ns : List Int64}

private theorem fitsAlong_nil : FitsAlong op start [] ↔ Fits start := by
  simp [FitsAlong]

private theorem fitsAlong_cons :
    FitsAlong op start (n :: ns) ↔ Fits start ∧ FitsAlong op (op start n.toInt) ns := by
  constructor
  · intro h
    refine ⟨h [] List.nil_prefix, fun first hfirst => ?_⟩
    exact h (n :: first) ((List.prefix_cons_inj n).mpr hfirst)
  · rintro ⟨hstart, hrest⟩ first hfirst
    rcases List.prefix_cons_iff.mp hfirst with rfl | ⟨behind, rfl, hbehind⟩
    · exact hstart
    · exact hrest behind hbehind

theorem fitsAlong_negation (n : Int64) : FitsAlong (· - ·) 0 [n] ↔ n ≠ Int64.minValue := by
  have hn := fits_toInt n
  rw [fitsAlong_cons, fitsAlong_nil, ne_eq, ← Int64.toInt_inj]
  change _ ↔ ¬ n.toInt = -0x8000000000000000
  unfold Fits at *
  omega

end Word

namespace Operation

open Word (FitsAlong fitsAlong_nil fitsAlong_cons)

/-- On words the operation is `exact`, if the result is a word. -/
def Checks (o : Operation) (exact : Int → Int → Int) : Prop :=
  ∀ x y, o.onInts x y = Word.ofInt? (exact x.toInt y.toInt)

private theorem checks_addition : addition.Checks (· + ·) := fun _ _ => rfl

private theorem checks_subtraction : subtraction.Checks (· - ·) := fun _ _ => rfl

private theorem checks_multiplication : multiplication.Checks (· * ·) := fun _ _ => rfl

variable {o : Operation} {op : Int → Int → Int} {w : Int64} {ns : List Int64}

private theorem Checks.fold_of_fits (ho : o.Checks op) (h : FitsAlong op w.toInt ns) :
    ∃ r : Int64, r.toInt = (ns.map Int64.toInt).foldl op w.toInt ∧
      o.fold (.int w) (ns.map .int) = .ok (.int r) := by
  induction ns generalizing w with
  | nil => exact ⟨w, rfl, rfl⟩
  | cons n ns ih =>
    have hnext := (fitsAlong_cons.mp h).2
    obtain ⟨r, hr, heq⟩ := Word.exists_ofInt? (hnext [] List.nil_prefix)
    rw [List.map_nil, List.foldl_nil] at hr heq
    rw [← heq] at hnext
    obtain ⟨total, htotal, hfold⟩ := ih hnext
    refine ⟨total, by rw [htotal, heq]; rfl, ?_⟩
    rw [List.map_cons, fold, apply, ho, hr]
    exact hfold

private theorem Checks.fold_of_not_fits (ho : o.Checks op) (h : ¬ FitsAlong op w.toInt ns) :
    o.fold (.int w) (ns.map .int) = .error (.integerOverflow o.name) := by
  induction ns generalizing w with
  | nil => exact absurd (fitsAlong_nil.mpr (Word.fits_toInt w)) h
  | cons n ns ih =>
    rw [List.map_cons, fold, apply, ho]
    cases hr : Word.ofInt? (op w.toInt n.toInt) with
    | none => rfl
    | some r =>
      have heq := Word.toInt_ofInt? hr
      rw [fitsAlong_cons, ← heq] at h
      exact ih fun hrest => h ⟨Word.fits_toInt w, hrest⟩

end Operation

namespace Procedures

open Word (FitsAlong)

/-- The code answers the integer `n` if `fits`, and otherwise fails with an overflow in `name`. In
neither case does it change the store. -/
def AnswersIf (program : Native Value) (name : String) (fits : Prop) (n : Int) : Prop :=
  ∀ store, (fits → ∃ w : Int64, w.toInt = n ∧ program store = .done (.int w) store) ∧
    (¬ fits → program store = .fail (.integerOverflow name) store)

section Division

variable {name : String} {op : Int64 → Int64 → Option Int64} {x y : Int64}

private theorem answersIf_integerDivision (hy : y ≠ 0) {fits : Prop} [Decidable fits] {n : Int}
    (hop : op x y = if fits then Word.ofInt? n else none) (hn : fits → Word.Fits n) :
    AnswersIf (integerDivision name op [.int x, .int y]) name fits n := by
  intro store
  simp only [integerDivision, binary, if_neg hy, hop]
  constructor
  · intro hfits
    obtain ⟨w, hw, heq⟩ := Word.exists_ofInt? (hn hfits)
    refine ⟨w, heq, ?_⟩
    rw [if_pos hfits, hw]
    rfl
  · intro hfits
    rw [if_neg hfits]
    rfl

/-- Nothing is divided by zero. By any other word, quotient, remainder and modulo are as they
should be wherever the quotient is a word, that is everywhere but for the least word by minus one.
The remainders are words in any case, and so is the sum that modulo may form. -/
theorem integer_division_needs_quotient (x y : Int64) :
    (y = 0 → ∀ p ∈ [quotient, remainder, modulo], ∀ store,
      p [.int x, .int y] store = .fail .divisionByZero store) ∧
    (y ≠ 0 → ∃ q r m : Int,
      x.toInt = q * y.toInt + r ∧ IsRemainder x.toInt x.toInt y.toInt r ∧
      IsRemainder y.toInt x.toInt y.toInt m ∧ (m = r ∨ m = r + y.toInt) ∧
      Word.Fits r ∧ Word.Fits m ∧ (Word.Fits q ↔ ¬ (x = Int64.minValue ∧ y = -1)) ∧
      AnswersIf (quotient [.int x, .int y]) "quotient" (Word.Fits q) q ∧
      AnswersIf (remainder [.int x, .int y]) "remainder" (Word.Fits q) r ∧
      AnswersIf (modulo [.int x, .int y]) "modulo" (Word.Fits q) m) := by
  constructor
  · rintro rfl p hp store
    simp only [List.mem_cons, List.not_mem_nil, or_false] at hp
    rcases hp with rfl | rfl | rfl <;> rfl
  · intro hy
    have hr := IsRemainder.tmod x.toInt (Word.toInt_ne_zero hy)
    have hm := hr.turned
    have hr_fits := Word.fits_of_isRemainder hr
    have hm_fits := Word.fits_of_isRemainder hm
    refine ⟨_, _, _, ?_, hr, hm, ?_, hr_fits, hm_fits, Word.fits_quotient_iff hy,
      answersIf_integerDivision hy (Word.quotient?_eq x y) id,
      answersIf_integerDivision hy (Word.remainder?_eq x y) fun _ => hr_fits,
      answersIf_integerDivision hy (Word.modulo?_eq hy hm) fun _ => hm_fits⟩
    · exact (Int.tdiv_mul_add_tmod x.toInt y.toInt).symm
    · split
      · exact .inr rfl
      · exact .inl rfl

/-- The least word leaves nothing when it is divided by minus one, and this is refused. -/
theorem least_by_minus_one_is_refused :
    IsRemainder Int64.minValue.toInt Int64.minValue.toInt (-1) 0 ∧ Word.Fits 0 ∧
    ∀ store,
      remainder [.int Int64.minValue, .int (-1)] store =
        .fail (.integerOverflow "remainder") store ∧
      modulo [.int Int64.minValue, .int (-1)] store = .fail (.integerOverflow "modulo") store := by
  obtain ⟨q, r, m, -, hr, -, -, hr_fits, -, hq, -, hremainder, hmodulo⟩ :=
    (integer_division_needs_quotient Int64.minValue (-1)).2 (by decide)
  have hnot : ¬ Word.Fits q := by simp [hq]
  have hlt := hr.lt
  change r.natAbs < 1 at hlt
  obtain rfl : r = 0 := by omega
  exact ⟨hr, hr_fits, fun store => ⟨(hremainder store).2 hnot, (hmodulo store).2 hnot⟩⟩

end Division

section Folding

variable {args : List Value} {v : Value}

private theorem isSome_ofValue? (v : Value) : (Number.ofValue? v).isSome = v.isNumber := by
  cases v <;> rfl

private theorem bind_numbers_words (name : String) (ns : List Int64) {α : Type}
    (f : List Number → Native α) : (numbers name (ns.map .int) >>= f) = f (ns.map .int) := by
  have hafter (reversed : List Number) (store : Store) :
      numbersAfter name reversed (ns.map .int) store =
        .done (reversed.reverse ++ ns.map .int) store := by
    induction ns generalizing reversed with
    | nil => exact congrArg (Interaction.done · store) (List.append_nil _).symm
    | cons n ns ih =>
      rw [List.map_cons, List.map_cons, List.append_cons, ← List.reverse_cons]
      exact ih _
  funext store
  show (numbersAfter name [] (ns.map .int) store).bind f = _
  rw [hafter]
  rfl

theorem bind_numbers_of_wrong (name : String) (h : args.find? (!·.isNumber) = some v) {α : Type}
    (f : List Number → Native α) (store : Store) :
    (numbers name args >>= f) store = .fail (store.wrongArgument name "number" v) store := by
  have hafter (reversed : List Number) :
      numbersAfter name reversed args store =
        .fail (store.wrongArgument name "number" v) store := by
    induction args generalizing reversed with
    | nil => simp at h
    | cons u args ih =>
      have hu := isSome_ofValue? u
      rw [List.find?_cons, ← hu] at h
      rw [numbersAfter]
      cases hn : Number.ofValue? u with
      | some n =>
        rw [hn] at h
        exact ih h _
      | none =>
        rw [hn] at h
        obtain rfl : u = v := Option.some.inj h
        rfl
  show (numbersAfter name [] args store).bind f = _
  rw [hafter]
  rfl

private theorem answersIf_fold {o : Operation} {op : Int → Int → Int} (ho : o.Checks op) (w : Int64)
    (ns : List Int64) :
    AnswersIf (ofNumber (o.fold (.int w) (ns.map .int))) o.name (FitsAlong op w.toInt ns)
      ((ns.map Int64.toInt).foldl op w.toInt) := by
  intro store
  constructor
  · intro hfits
    obtain ⟨r, hr, hfold⟩ := ho.fold_of_fits hfits
    exact ⟨r, hr, by rw [hfold]; rfl⟩
  · intro hfits
    rw [ho.fold_of_not_fits hfits]
    rfl

private theorem subtract_word (n : Int64) :
    subtract [.int n] = ofNumber (Operation.subtraction.fold (.int 0) ([n].map .int)) := by
  show ofNumber (Operation.subtraction.apply (.int 0) (.int n)) = _
  rw [List.map_singleton, Operation.fold]
  cases Operation.subtraction.apply (.int 0) (.int n) <;> rfl

/-- Sums, products and differences of words are exact if all that comes up on the way to them, from
left to right, is a word, and an overflow otherwise; the least word alone has no negative. Among
arguments that are not all numbers the first such is refused, whatever the others come to. -/
theorem folding_is_exact_or_refused :
    (∀ ns : List Int64,
      AnswersIf (add (ns.map .int)) "+" (FitsAlong (· + ·) 0 ns) (ns.map Int64.toInt).sum ∧
      AnswersIf (multiply (ns.map .int)) "*" (FitsAlong (· * ·) 1 ns) (ns.map Int64.toInt).prod) ∧
    (∀ (n k : Int64) (ns : List Int64),
      AnswersIf (subtract ((n :: k :: ns).map .int)) "-" (FitsAlong (· - ·) n.toInt (k :: ns))
        (((k :: ns).map Int64.toInt).foldl (· - ·) n.toInt)) ∧
    (∀ n : Int64, AnswersIf (subtract [.int n]) "-" (n ≠ Int64.minValue) (-n.toInt)) ∧
    ∀ (args : List Value) (v : Value), args.find? (!·.isNumber) = some v → ∀ store,
      add args store = .fail (store.wrongArgument "+" "number" v) store ∧
      multiply args store = .fail (store.wrongArgument "*" "number" v) store ∧
      subtract args store = .fail (store.wrongArgument "-" "number" v) store := by
  refine ⟨fun ns => ⟨?_, ?_⟩, fun n k ns => ?_, fun n => ?_, fun args v h store => ⟨?_, ?_, ?_⟩⟩
  · rw [add, bind_numbers_words, List.sum_eq_foldl]
    exact answersIf_fold Operation.checks_addition 0 ns
  · rw [multiply, bind_numbers_words, List.prod_eq_foldl]
    exact answersIf_fold Operation.checks_multiplication 1 ns
  · rw [subtract, numbers₁, bind_numbers_words]
    exact answersIf_fold Operation.checks_subtraction n (k :: ns)
  · rw [subtract_word, ← Word.fitsAlong_negation, ← Int.zero_sub]
    exact answersIf_fold Operation.checks_subtraction 0 [n]
  · exact bind_numbers_of_wrong "+" h _ store
  · exact bind_numbers_of_wrong "*" h _ store
  · show ((numbers "-" args >>= _) store).bind _ = _
    rw [bind_numbers_of_wrong "-" h]
    rfl

/-- What the first arguments come to is no word, though what all of them come to is one. A
difference may be the least word. What is no number is refused whatever stands in front of it. -/
theorem overflow_on_the_way_is_refused :
    ∀ store : Store,
      add [.int Int64.maxValue, .int 1, .int (-1)] store = .fail (.integerOverflow "+") store ∧
      multiply [.int Int64.maxValue, .int 2, .int 0] store = .fail (.integerOverflow "*") store ∧
      (∃ w : Int64, w.toInt = -0x8000000000000000 ∧
        subtract [.int (-1), .int Int64.maxValue] store = .done (.int w) store) ∧
      subtract [.int Int64.minValue] store = .fail (.integerOverflow "-") store ∧
      add [.int Int64.maxValue, .int 1, .bool true, .nil] store =
        .fail (store.wrongArgument "+" "number" (.bool true)) store := by
  intro store
  obtain ⟨hfold, hdifference, hnegation, hwrong⟩ := folding_is_exact_or_refused
  refine ⟨((hfold [Int64.maxValue, 1, -1]).1 store).2 fun h => ?_,
    ((hfold [Int64.maxValue, 2, 0]).2 store).2 fun h => ?_,
    (hdifference (-1) Int64.maxValue [] store).1 ?_, (hnegation Int64.minValue store).2 (by simp),
    (hwrong [.int Int64.maxValue, .int 1, .bool true, .nil] (.bool true) rfl store).1⟩
  · exact absurd (h [Int64.maxValue, 1] ⟨[-1], rfl⟩) (by decide)
  · exact absurd (h [Int64.maxValue, 2] ⟨[0], rfl⟩) (by decide)
  · rw [Word.fitsAlong_cons, Word.fitsAlong_nil]
    decide

end Folding

end Procedures
end MiniScheme
