/-! # Checked 64-bit arithmetic

Results are computed exactly and then have to fit a signed 64-bit word.
-/
namespace MiniScheme.Word

/-- The integer is the value of a word. -/
def Fits (n : Int) : Prop := -0x8000000000000000 ≤ n ∧ n < 0x8000000000000000

instance : DecidablePred Fits := fun n =>
  inferInstanceAs (Decidable (-0x8000000000000000 ≤ n ∧ n < 0x8000000000000000))

def ofInt? (n : Int) : Option Int64 :=
  if -0x8000000000000000 ≤ n && n < 0x8000000000000000 then some (Int64.ofInt n) else none

def add? (x y : Int64) : Option Int64 := ofInt? (x.toInt + y.toInt)

def sub? (x y : Int64) : Option Int64 := ofInt? (x.toInt - y.toInt)

def mul? (x y : Int64) : Option Int64 := ofInt? (x.toInt * y.toInt)

def abs? (x : Int64) : Option Int64 := ofInt? x.toInt.natAbs

/-- Quotient rounded toward zero. -/
def quotient? (x y : Int64) : Option Int64 := ofInt? (x.toInt.tdiv y.toInt)

/-- Remainder of `quotient?`, with the sign of `x`; there is none where the quotient does not
fit. -/
def remainder? (x y : Int64) : Option Int64 :=
  match quotient? x y with
  | some _ => ofInt? (x.toInt.tmod y.toInt)
  | none => none

/-- Remainder with the sign of `y`. -/
def modulo? (x y : Int64) : Option Int64 :=
  match remainder? x y with
  | some r => if r ≠ 0 && (r < 0) != (y < 0) then ofInt? (r.toInt + y.toInt) else some r
  | none => none

theorem toInt_ofInt? {n : Int} {w : Int64} (h : ofInt? n = some w) : w.toInt = n := by
  simp only [ofInt?, Bool.and_eq_true, decide_eq_true_eq, Option.ite_none_right_eq_some,
    Option.some.injEq] at h
  obtain ⟨⟨hlo, hhi⟩, rfl⟩ := h
  exact Int64.toInt_ofInt_of_le hlo hhi

theorem fits_toInt (w : Int64) : Fits w.toInt := ⟨Int64.le_toInt w, Int64.toInt_lt w⟩

theorem exists_ofInt? {n : Int} (h : Fits n) : ∃ w, ofInt? n = some w ∧ w.toInt = n := by
  refine ⟨Int64.ofInt n, ?_, Int64.toInt_ofInt_of_le h.1 h.2⟩
  simp [ofInt?, h.1, h.2]

theorem ofInt?_eq_none_iff {n : Int} : ofInt? n = none ↔ ¬ Fits n := by
  simp [ofInt?, Fits]

theorem ofInt?_toInt (n : Int64) : ofInt? n.toInt = some n := by
  obtain ⟨w, hw, heq⟩ := exists_ofInt? (fits_toInt n)
  rw [hw, Int64.toInt_inj.mp heq]

end MiniScheme.Word
