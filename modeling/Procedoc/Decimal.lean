/-! # Decimal fractions

A `Decimal` is a decimal fraction with a sign of its own, so that there are two zeros.  It is kept
digit for digit and never rounded.

* `Decimal.make` is the normal form: the digits do not end in a zero.
* `Decimal.whole?` is the integer that a fraction is, where it is one.
* `Decimal.text` writes a fraction so that it reads as one and not as an integer.
-/

namespace Procedoc
set_option autoImplicit false

/-- The number `digits * 10 ^ exponent`, or its negative. -/
structure Decimal where
  negative : Bool
  digits : Nat
  exponent : Int
  deriving DecidableEq, Inhabited

def tenTo : Nat → Nat
  | 0 => 1
  | n + 1 => 10 * tenTo n

namespace Decimal

/-- Drops zeros at the end of the digits, at most as many as the first number says. -/
def dropZeros : Nat → Nat → Int → Nat × Int
  | 0, digits, exponent => (digits, exponent)
  | steps + 1, digits, exponent =>
    if digits % 10 = 0 then dropZeros steps (digits / 10) (exponent + 1) else (digits, exponent)

/-- The fraction in its normal form. -/
def make (negative : Bool) (digits : Nat) (exponent : Int) : Decimal :=
  if digits = 0 then ⟨negative, 0, 0⟩
  else
    let (d, e) := dropZeros (Nat.toDigits 10 digits).length digits exponent
    ⟨negative, d, e⟩

def ofInt (n : Int) : Decimal := make (n < 0) n.natAbs 0

/-- Whether the fraction is one of the two zeros. -/
def isZero (x : Decimal) : Bool := x.digits = 0

/-- The integer with the sign of the fraction. -/
def signed (x : Decimal) (n : Nat) : Int := if x.negative then -(n : Int) else n

/-- The integer that the fraction is, if it is one. -/
def whole? (x : Decimal) : Option Int :=
  match x.exponent with
  | .ofNat e => some (x.signed (x.digits * tenTo e))
  | .negSucc e =>
    if x.digits % tenTo (e + 1) = 0 then some (x.signed (x.digits / tenTo (e + 1))) else none

/-- The integer that remains of the fraction without the digits after the point. -/
def truncated (x : Decimal) : Int :=
  match x.exponent with
  | .ofNat e => x.signed (x.digits * tenTo e)
  | .negSucc e => x.signed (x.digits / tenTo (e + 1))

/-- Whether two fractions are equal as numbers, so that the two zeros are. -/
def same (x y : Decimal) : Bool := x == y || (x.isZero && y.isZero)

/-! ## Text -/

def digitsOf (n : Nat) : List Char := Nat.toDigits 10 n

/-- An exponent with its sign and at least two digits. -/
def exponentText (e : Int) : List Char :=
  let ds := digitsOf e.natAbs
  (if e < 0 then '-' else '+') :: (if ds.length < 2 then '0' :: ds else ds)

/-- The digits with a point after as many of them as the number says. -/
def pointed (ds : List Char) : Int → List Char
  | .ofNat p =>
    if p = 0 then '0' :: '.' :: ds
    else if p < ds.length then ds.take p ++ '.' :: ds.drop p
    else ds ++ List.replicate (p - ds.length) '0' ++ ['.', '0']
  | .negSucc p => '0' :: '.' :: (List.replicate (p + 1) '0' ++ ds)

/-- The text of a fraction: with a point from `0.0001` up to sixteen places before it, else with an
exponent. -/
def text (x : Decimal) : String :=
  let ds := digitsOf x.digits
  let place : Int := if x.isZero then 1 else ds.length + x.exponent
  let body :=
    if -4 < place ∧ place ≤ 16 then pointed ds place
    else
      (match ds with
        | [d] => [d]
        | d :: rest => d :: '.' :: rest
        | [] => ['0'])
      ++ 'e' :: exponentText (place - 1)
  String.ofList (if x.negative then '-' :: body else body)

example : (make false 150 (-2)).text = "1.5" ∧ (make true 0 0).text = "-0.0"
    ∧ (make false 1 16).text = "1e+16" ∧ (make false 12 14).text = "1200000000000000.0"
    ∧ (make false 25 (-6)).text = "2.5e-05" ∧ (make false 1 (-4)).text = "0.0001" := by
  decide +kernel

end Decimal
end Procedoc
