import Procedoc.Text.CaseTable
import Procedoc.Text.Ranges

/-! # Case

* `upper`, `lower`: every character in its capital, or its small form.
* `title`: the first cased character of every run of cased characters in title form, the others
  small.

A capital sigma becomes a final one where a cased character comes before it and none comes after,
characters without weight for case not counted.
-/

namespace Procedoc.Text
set_option autoImplicit false

/-- The image of a character under the runs that are given in increasing order. -/
def Run.image : List Run → Nat → Option Nat
  | [], _ => none
  | r :: rest, c =>
    if c < r.first then none
    else if c ≤ r.last ∧ (c - r.first) % r.step = 0 then some (Int.toNat (c + r.offset))
    else image rest c

/-- The form of a character: a sequence from the expansions, or its image, or the character. -/
def form (expansions : List (Nat × List Nat)) (runs : List Run) (c : Char) : List Char :=
  match expansions.lookup c.toNat with
  | some seq => seq.map Char.ofNat
  | none => [((Run.image runs c.toNat).map Char.ofNat).getD c]

def upperForm (c : Char) : List Char := form upperExpansions upperRuns c

/-- The small form of a character that stands alone. -/
def lowerForm (c : Char) : List Char := form lowerExpansions lowerRuns c

/-- The form that a character takes at the beginning of a word. -/
def titleForm (c : Char) : List Char := form titleExpansions titleRuns c

def isCased (c : Char) : Bool := within casedRanges c.toNat

/-- Whether the character is passed over when case is looked at. -/
def isCaseIgnorable (c : Char) : Bool := within caseIgnorableRanges c.toNat

/-- Whether the first character that counts is cased. -/
def meetsCased (cs : List Char) : Bool :=
  match cs.dropWhile isCaseIgnorable with
  | [] => false
  | c :: _ => isCased c

/-- The small form of a character between those before it, the nearest first, and those after. -/
def lowerWithin (before : List Char) (c : Char) (after : List Char) : List Char :=
  if c = 'Σ' then
    if meetsCased before && !meetsCased after then ['ς'] else ['σ']
  else lowerForm c

/-- Small forms of the characters, those before them given the nearest first. -/
def lowerFrom (before : List Char) : List Char → List Char
  | [] => []
  | c :: after => lowerWithin before c after ++ lowerFrom (c :: before) after

/-- Title forms of the characters, those before them given the nearest first. -/
def titleFrom (before : List Char) : List Char → List Char
  | [] => []
  | c :: after =>
    (if before.head?.any isCased then lowerWithin before c after else titleForm c)
      ++ titleFrom (c :: before) after

def upper (s : String) : String := String.ofList (s.toList.flatMap upperForm)

def lower (s : String) : String := String.ofList (lowerFrom [] s.toList)

/-- The text with every word capitalised. -/
def title (s : String) : String := String.ofList (titleFrom [] s.toList)

example : upper "poſt" = "POST" := by decide +kernel

example : title "it's ßx1y" = "It'S Ssx1Y" := by decide +kernel

end Procedoc.Text
