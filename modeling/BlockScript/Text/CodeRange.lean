/-!
Ranges of code points, the form in which properties of characters are tabulated.
-/
namespace BlockScript.Text

/-- Code points from the first to the second, both included. -/
abbrev CodeRange := Nat × Nat

def CodeRange.covers (r : CodeRange) (code : Nat) : Bool := r.1 ≤ code && code ≤ r.2

end BlockScript.Text
