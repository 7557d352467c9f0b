import Procedoc.Text.Ranges

/-! # White space and trimming

Two sets of blank characters are in use.  `isBlank` is the wide one, which also counts the four
separators U+001C to U+001F; `isSpace` is the property White_Space, which does not.

* `trim`, `trimEnd`: text without the characters of a class at both ends, or at its end.
-/

namespace Procedoc.Text
set_option autoImplicit false

/-- The property White_Space. -/
def spaceRanges : List (Nat × Nat) := [
  (0x09, 0x0D), (0x20, 0x20), (0x85, 0x85), (0xA0, 0xA0), (0x1680, 0x1680), (0x2000, 0x200A),
  (0x2028, 0x2029), (0x202F, 0x202F), (0x205F, 0x205F), (0x3000, 0x3000)]

/-- White space, and the information separators. -/
def blankRanges : List (Nat × Nat) := [
  (0x09, 0x0D), (0x1C, 0x20), (0x85, 0x85), (0xA0, 0xA0), (0x1680, 0x1680), (0x2000, 0x200A),
  (0x2028, 0x2029), (0x202F, 0x202F), (0x205F, 0x205F), (0x3000, 0x3000)]

/-- Whether the character has the property White_Space. -/
def isSpace (c : Char) : Bool := within spaceRanges c.toNat

/-- Whether the character is white space or an information separator. -/
def isBlank (c : Char) : Bool := within blankRanges c.toNat

/-- Drops the characters of a class at the end. -/
def dropEnd (p : Char → Bool) (cs : List Char) : List Char := (cs.reverse.dropWhile p).reverse

/-- Drops the characters of a class at both ends. -/
def dropEnds (p : Char → Bool) (cs : List Char) : List Char := dropEnd p (cs.dropWhile p)

/-- Text without the characters of a class at its end. -/
def trimEnd (p : Char → Bool) (s : String) : String := String.ofList (dropEnd p s.toList)

/-- Text without the characters of a class at both ends. -/
def trim (p : Char → Bool) (s : String) : String := String.ofList (dropEnds p s.toList)

def strip (s : String) : String := trim isBlank s

@[simp] theorem dropEnd_nil (p : Char → Bool) : dropEnd p [] = [] := rfl

@[simp] theorem dropEnds_nil (p : Char → Bool) : dropEnds p [] = [] := rfl

@[simp] theorem toList_trim (p : Char → Bool) (s : String) :
    (trim p s).toList = dropEnds p s.toList := by simp [trim]

@[simp] theorem toList_trimEnd (p : Char → Bool) (s : String) :
    (trimEnd p s).toList = dropEnd p s.toList := by simp [trimEnd]

example : strip "\t a b\u3000" = "a b" := by decide +kernel

end Procedoc.Text
