import Procedoc.Decimal

/-! # Binary fractions

A decimal fraction stands for the nearest number with at most 53 binary digits.

* `divideEven` is the integer nearest to a quotient, of two nearest ones the even one.
* `Binary.nearest` is the binary fraction nearest to a decimal one.
-/

namespace Procedoc
set_option autoImplicit false

/-- The integer nearest to a quotient; halfway between two it is the even one. -/
def divideEven (n d : Nat) : Nat :=
  let q := n / d
  let doubled := 2 * (n % d)
  if d < doubled || (doubled == d && q % 2 == 1) then q + 1 else q

def twoTo : Nat → Nat
  | 0 => 1
  | n + 1 => 2 * twoTo n

/-- The number that is `mantissa` times a power of two with the given exponent. -/
structure Binary where
  mantissa : Nat
  exponent : Int
  deriving DecidableEq, Inhabited

namespace Binary

/-- The quotient in units of the power of two with the given exponent, rounded. -/
def scaled (n d : Nat) (exponent : Int) : Nat :=
  match exponent with
  | .ofNat e => divideEven n (d * twoTo e)
  | .negSucc e => divideEven (n * twoTo (e + 1)) d

/-- The exponent with which 53 or 54 digits of a quotient stand before the point; it is at least the
least one that there is. -/
def exponentFor (n d : Nat) : Int := max (-1074) ((n.log2 : Int) - d.log2 - 53)

/-- The binary fraction nearest to a quotient. -/
def ofQuotient (n d : Nat) : Binary :=
  let e := exponentFor n d
  if scaled n d e < twoTo 53 then ⟨scaled n d e, e⟩ else ⟨scaled n d (e + 1), e + 1⟩

/-- The binary fraction nearest to a decimal one, without its sign. -/
def nearest (x : Decimal) : Binary :=
  match x.exponent with
  | .ofNat e => ofQuotient (x.digits * tenTo e) 1
  | .negSucc e => ofQuotient x.digits (tenTo (e + 1))

example : nearest (.make false 15 (-1)) = ⟨6755399441055744, -52⟩
    ∧ nearest (.make false 1 (-1)) = ⟨7205759403792794, -56⟩
    ∧ nearest (.make false 5 (-324)) = ⟨1, -1074⟩ := by decide +kernel

end Binary
end Procedoc
