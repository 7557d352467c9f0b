import Procedoc.Text.Blank

/-! # Documentation text

`cleanDoc` is the text of a documentation comment as it is shown: tabs become spaces, the first
line loses its indent, the others lose the indent that all of them share, and empty lines at both
ends go.
-/

namespace Procedoc.Text
set_option autoImplicit false

/-- Tabs as spaces up to the next of the columns 8, 16 and so on; a line starts at column 0. -/
def expandTabs (column : Nat) : List Char → List Char
  | [] => []
  | '\t' :: rest =>
    let width := 8 - column % 8
    List.replicate width ' ' ++ expandTabs (column + width) rest
  | c :: rest => c :: expandTabs (if c = '\n' || c = '\r' then 0 else column + 1) rest

/-- The lines of a text, divided at line feeds. -/
def linesOf : List Char → List (List Char)
  | [] => [[]]
  | c :: rest =>
    match linesOf rest with
    | [] => [[c]]
    | line :: lines => if c = '\n' then [] :: line :: lines else (c :: line) :: lines

/-- The number of blanks a line begins with, if it holds anything else. -/
def indentOf (line : List Char) : Option Nat :=
  let body := line.dropWhile isBlank
  if body.isEmpty then none else some (line.length - body.length)

/-- The least indent of the lines that hold anything but blanks. -/
def margin (lines : List (List Char)) : Option Nat := (lines.filterMap indentOf).min?

/-- Lines without the empty ones at both ends. -/
def dropEmptyEnds (lines : List (List Char)) : List (List Char) :=
  ((lines.dropWhile List.isEmpty).reverse.dropWhile List.isEmpty).reverse

/-- Documentation text as it is shown. -/
def cleanDoc (s : String) : String :=
  match linesOf (expandTabs 0 s.toList) with
  | [] => ""
  | first :: rest =>
    let shifted := match margin rest with
      | some m => rest.map (List.drop m)
      | none => rest
    String.ofList (['\n'].intercalate (dropEmptyEnds (first.dropWhile isBlank :: shifted)))

/-- The description that documentation text gives; no text gives none. -/
def describedBy (doc : Option String) : Option String :=
  doc.bind fun d => if d.isEmpty then none else some (cleanDoc d)

example : cleanDoc "Input doc.\n\n  more\n    less\n" = "Input doc.\n\nmore\n  less" := by
  decide +kernel

end Procedoc.Text
