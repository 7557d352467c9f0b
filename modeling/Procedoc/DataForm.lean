import Procedoc.Config
import Procedoc.Fault
import Procedoc.Text.Calendar

/-! # Octets and days as data

* `OctetForm.write` is the text of octets: the text that they encode, or digits in base 64 or 16.
* `MomentForm.write` is the data of a day: its own text, or the time from the first day of 1970 on.
-/

namespace Procedoc
set_option autoImplicit false

/-! ## Octets -/

def hexDigit (n : Nat) : Char := Nat.digitChar n

/-- The digits of octets in base 16. -/
def hexOf (octets : List UInt8) : List Char :=
  octets.flatMap fun o => [hexDigit (o.toNat / 16), hexDigit (o.toNat % 16)]

/-- The digits in base 64, in order. -/
def base64Digits : List Char :=
  "ABCDEFGHIJKLMNOPQRSTUVWXYZabcdefghijklmnopqrstuvwxyz0123456789-_".toList

def base64Digit (n : Nat) : Char := base64Digits.getD n '='

/-- The digits of octets in base 64: four for three octets, filled up at the end. -/
def base64Of : List UInt8 → List Char
  | a :: b :: c :: rest =>
    let n := (a.toNat * 256 + b.toNat) * 256 + c.toNat
    base64Digit (n / 262144) :: base64Digit (n / 4096 % 64) :: base64Digit (n / 64 % 64)
      :: base64Digit (n % 64) :: base64Of rest
  | [a, b] =>
    let n := (a.toNat * 256 + b.toNat) * 4
    [base64Digit (n / 4096), base64Digit (n / 64 % 64), base64Digit (n % 64), '=']
  | [a] =>
    let n := a.toNat * 16
    [base64Digit (n / 64), base64Digit (n % 64), '=', '=']
  | [] => []

/-- The text of octets; not all octets encode a text. -/
def OctetForm.write (form : OctetForm) (octets : List UInt8) : Except Fault Json :=
  match form with
  | text =>
    match String.fromUTF8? ⟨octets.toArray⟩ with
    | some s => .ok (.str s)
    | none => .error .undecodableOctets
  | base64 => .ok (.str (String.ofList (base64Of octets)))
  | hex => .ok (.str (String.ofList (hexOf octets)))

example : String.ofList (base64Of [104, 105, 255]) = "aGn_"
    ∧ String.ofList (base64Of [104]) = "aA==" ∧ String.ofList (hexOf [10, 255]) = "0aff" := by
  decide +kernel

/-! ## Days -/

/-- The data of a day that is given by its number. -/
def MomentForm.write (form : MomentForm) (day : Int) : Json :=
  match form with
  | text => .str (Text.dayText day)
  | seconds => .decimal (.ofInt (day * 86400))
  | milliseconds => .decimal (.ofInt (day * 86400000))

end Procedoc
