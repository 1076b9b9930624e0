/-!
Sets of characters given as tables of code point ranges.
-/

namespace Syntree.Text

/-- A set of characters as closed ranges of code points. -/
abbrev Ranges := List (Nat × Nat)

def Ranges.contains (ranges : Ranges) (c : Char) : Bool :=
  ranges.any fun r => r.1 ≤ c.toNat && c.toNat ≤ r.2

end Syntree.Text
