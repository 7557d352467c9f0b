import Procedoc.Text.Blank
import Procedoc.Text.Naming

/-! # Integers in texts

* `digits?` reads a given number of digits, `integer?` a whole text with or without a sign.
* `looseInteger?` also lets blanks stand around the integer, and an underscore between two digits.
-/

namespace Procedoc.Text
set_option autoImplicit false

/-- So many digits at the beginning of a text, as a number, and what comes after them. -/
def digits? (count : Nat) (cs : List Char) : Option (Nat × List Char) :=
  let ds := cs.take count
  if ds.length = count && ds.all isDigit then
    some (ds.foldl (fun n d => 10 * n + (d.toNat - '0'.toNat)) 0, cs.drop count)
  else none

/-- The integer that a text is. -/
def integer? (cs : List Char) : Option Int :=
  let (isNegative, ds) : Bool × List Char := match cs with
    | '-' :: rest => (true, rest)
    | '+' :: rest => (false, rest)
    | rest => (false, rest)
  if ds.isEmpty then none
  else match digits? ds.length ds with
    | some (n, []) => some (if isNegative then -(n : Int) else n)
    | _ => none

/-- A text without the underscores that stand between two digits. -/
def joinDigits : List Char → List Char
  | a :: '_' :: b :: rest =>
    if isDigit a && isDigit b then a :: joinDigits (b :: rest)
    else a :: '_' :: joinDigits (b :: rest)
  | a :: rest => a :: joinDigits rest
  | [] => []

/-- The integer that a text is, blanks around it and underscores between its digits aside. -/
def looseInteger? (s : String) : Option Int := integer? (joinDigits (dropEnds isBlank s.toList))

example : looseInteger? " -1_000 " = some (-1000) ∧ looseInteger? "1__0" = none
    ∧ looseInteger? "_1" = none ∧ looseInteger? "" = none := by decide +kernel

end Procedoc.Text
