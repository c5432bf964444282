/-! # Code points -/
namespace MiniScheme.Text

/-- A run of code points, both ends included. -/
abbrev CodeRun := Nat × Nat

def inRuns (runs : List CodeRun) (c : Char) : Bool :=
  runs.any (fun run => run.1 ≤ c.toNat && c.toNat ≤ run.2)

/-- Code point of `c` in hexadecimal between braces. -/
def codePoint (c : Char) : String :=
  "\\u\x7b" ++ String.ofList (Nat.toDigits 16 c.toNat) ++ "\x7d"

end MiniScheme.Text
