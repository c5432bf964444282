/-! # Blank and delimiting characters -/
namespace MiniScheme.Text

/-- Characters with the Unicode property `White_Space`. -/
def isBlank (c : Char) : Bool :=
  let n := c.toNat
  (9 ≤ n && n ≤ 13) || n == 0x20 || n == 0x85 || n == 0xA0 || n == 0x1680 ||
    (0x2000 ≤ n && n ≤ 0x200A) || n == 0x2028 || n == 0x2029 || n == 0x202F || n == 0x205F ||
    n == 0x3000

def isDelimiter (c : Char) : Bool :=
  isBlank c || c == '(' || c == ')' || c == '"' || c == ';' || c == '\''

def isDigit (c : Char) : Bool := '0' ≤ c && c ≤ '9'

theorem not_isDelimiter_of_isDigit {d : Char} (h : isDigit d = true) : isDelimiter d = false := by
  simp only [isDigit, Bool.and_eq_true, decide_eq_true_eq, Char.le_def] at h
  have hlo : 48 ≤ d.toNat := h.1
  have hhi : d.toNat ≤ 57 := h.2
  have hne : ∀ c : Char, (c.toNat < 48 ∨ 57 < c.toNat) → (d == c) = false := by
    intro c hc
    rw [beq_eq_false_iff_ne]
    rintro rfl
    omega
  simp only [isDelimiter, isBlank, hne '(' (by decide), hne ')' (by decide), hne '"' (by decide),
    hne ';' (by decide), hne '\'' (by decide), Bool.or_false]
  simp only [Bool.or_eq_false_iff, Bool.and_eq_false_iff, decide_eq_false_iff_not,
    beq_eq_false_iff_ne]
  omega

end MiniScheme.Text
