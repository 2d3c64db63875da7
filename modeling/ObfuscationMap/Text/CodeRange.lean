/-!
Tables of code points are lists of ranges, both ends included. A character has a property when its
code point lies in one of the ranges of the property's table. A table comes in three parts: the code
points below U+2000, the others of the basic plane, and those beyond it.
-/

namespace ObfuscationMap.Text

abbrev CodeRange := Nat × Nat

def liesIn (ranges : List CodeRange) (c : Char) : Bool :=
  ranges.any fun r => r.1 ≤ c.toNat && c.toNat ≤ r.2

end ObfuscationMap.Text
