/-!
Tables of characters by code point. A table lists ranges in ascending order, so that a search
ends at the first range that begins beyond the character. All tables are those of edition 17 of
the Unicode Character Database.
-/
namespace PseudoBoolean.Text

abbrev Ranges := List (Nat × Nat)

def Ranges.covers : Ranges → Char → Bool
  | [], _ => false
  | (first, last) :: more, c => first ≤ c.toNat && (c.toNat ≤ last || covers more c)

/-- An entry `(first, last, step, delta)` stands for the code points from `first` to `last` in
    steps of `step`, each of which has its other case `delta` further on. -/
abbrev Shifts := List (Nat × Nat × Nat × Int)

def Shifts.of : Shifts → Char → Option Char
  | [], _ => none
  | (first, last, step, delta) :: more, c =>
    if c.toNat < first then none
    else if c.toNat ≤ last && (c.toNat - first) % step = 0 then
      some (Char.ofNat (c.toNat + delta).toNat)
    else of more c

end PseudoBoolean.Text
