/-! # Sets of characters as ranges

A property of characters is given by the ranges of code points that have it, in increasing order.
`within` searches such a list and stops at the first range that begins after the character.
-/

namespace Procedoc.Text
set_option autoImplicit false

/-- Whether a number lies in one of the ranges, which are given in increasing order. -/
def within : List (Nat × Nat) → Nat → Bool
  | [], _ => false
  | (first, last) :: rest, c =>
    if c < first then false else if c ≤ last then true else within rest c

@[simp] theorem within_nil (c : Nat) : within [] c = false := rfl

end Procedoc.Text
