import Procedoc.Text.Naming
import Procedoc.Text.Pattern

/-! # Addresses

The path of an address: what stands after the scheme and the host and before the query, with encoded
octets decoded.

* `pathPart` cuts the path out of an address.
* `decoded` puts the text in the place of encoded octets; octets that encode no text become the mark
  for such a place.
-/

namespace Procedoc.Text
set_option autoImplicit false

/-! ## Parts of an address -/

/-- Whether a character ends the path of an address. -/
def isPathEnd (c : Char) : Bool := c = '?' || c = '#'

/-- Whether a character may stand in a scheme. -/
def isSchemeChar (c : Char) : Bool :=
  isCapital c || isSmall c || isDigit c || c = '+' || c = '-' || c = '.'

/-- The address without its scheme. -/
def withoutScheme (cs : List Char) : List Char :=
  match cs, cs.dropWhile isSchemeChar with
  | c :: _, ':' :: rest => if isCapital c || isSmall c then rest else cs
  | _, _ => cs

/-- The address without its host. -/
def withoutHost : List Char → List Char
  | '/' :: '/' :: rest => rest.dropWhile fun c => c ≠ '/' && !isPathEnd c
  | cs => cs

/-- Whether a character is dropped at the beginning of an address: blanks and control characters. -/
def isLeadingNoise (c : Char) : Bool := c.toNat ≤ 0x20

/-- Whether a character is dropped wherever it stands in an address. -/
def isNoise (c : Char) : Bool := c = '\t' || c = '\r' || c = '\n'

/-- The path of an address, as it is written there. -/
def pathPart (cs : List Char) : List Char :=
  let clean := (cs.dropWhile isLeadingNoise).filter fun c => !isNoise c
  (withoutHost (withoutScheme clean)).takeWhile fun c => !isPathEnd c

/-! ## Encoded octets -/

/-- Whether an octet may come next in the encoding of a character that began with others. -/
def mayFollow (before : List Nat) (o : Nat) : Bool :=
  match before with
  | [] => false
  | [a] =>
    if a = 0xE0 then 0xA0 ≤ o && o ≤ 0xBF
    else if a = 0xED then 0x80 ≤ o && o ≤ 0x9F
    else if a = 0xF0 then 0x90 ≤ o && o ≤ 0xBF
    else if a = 0xF4 then 0x80 ≤ o && o ≤ 0x8F
    else 0x80 ≤ o && o ≤ 0xBF
  | _ => 0x80 ≤ o && o ≤ 0xBF

/-- The number of octets that encode a character which begins with one. -/
def lengthFrom (o : Nat) : Nat :=
  if 0xC2 ≤ o && o ≤ 0xDF then 2
  else if 0xE0 ≤ o && o ≤ 0xEF then 3
  else if 0xF0 ≤ o && o ≤ 0xF4 then 4
  else 0

/-- The character that octets encode. -/
def charFrom : List Nat → Char
  | [a, b] => Char.ofNat ((a - 0xC0) * 64 + (b - 0x80))
  | [a, b, c] => Char.ofNat (((a - 0xE0) * 64 + (b - 0x80)) * 64 + (c - 0x80))
  | [a, b, c, d] =>
    Char.ofNat ((((a - 0xF0) * 64 + (b - 0x80)) * 64 + (c - 0x80)) * 64 + (d - 0x80))
  | _ => Char.ofNat 0xFFFD

/-- The mark in the place of octets that encode no text. -/
def noText : Char := Char.ofNat 0xFFFD

/-- What an octet gives that begins anew: a character, a mark, or the beginning of more. -/
def beginWith (o : Nat) : List Nat × List Char :=
  if o < 0x80 then ([], [Char.ofNat o])
  else if lengthFrom o = 0 then ([], [noText])
  else ([o], [])

/-- The text of octets, after those in `before`, which begin a character. -/
def textOf (before : List Nat) : List Nat → List Char
  | [] => if before.isEmpty then [] else [noText]
  | o :: rest =>
    if mayFollow before o then
      let all := before ++ [o]
      if all.length = lengthFrom (all.headD 0) then charFrom all :: textOf [] rest
      else textOf all rest
    else
      let (begun, written) := beginWith o
      (if before.isEmpty then [] else [noText]) ++ written ++ textOf begun rest

/-- A text with the text of encoded octets in their place; `octets` are those read so far. -/
def decodeAfter (octets : List Nat) : List Char → List Char
  | [] => textOf [] octets
  | '%' :: a :: b :: rest =>
    match hexValue? a, hexValue? b with
    | some x, some y => decodeAfter (octets ++ [16 * x + y]) rest
    | _, _ => textOf [] octets ++ '%' :: decodeAfter [] (a :: b :: rest)
  | c :: rest => textOf [] octets ++ c :: decodeAfter [] rest

/-- A text with the text of encoded octets in their place. -/
def decoded (cs : List Char) : List Char := decodeAfter [] cs

example : String.ofList (decoded "/a%20b/%C3%A9%zz%E2%82x".toList)
    = String.ofList ("/a b/é%zz".toList ++ [noText, 'x']) := by decide +kernel

end Procedoc.Text
