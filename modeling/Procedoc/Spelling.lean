import Procedoc.Json
import Procedoc.Text.Shapeless

/-! # Spelling of values

How values stand in a message.

* `Json.spelled` is the spelling of a value: texts in quotes, `None`, `True` and `False` for null
  and the truth values, lists in brackets and objects in braces.
* `Json.inText` is the same but for a text by itself, which stands as it is.
-/

namespace Procedoc
set_option autoImplicit false

namespace Text

/-- A number in base 16 with at least so many digits. -/
def hexPadded (width n : Nat) : List Char :=
  let ds := Nat.toDigits 16 n
  List.replicate (width - ds.length) '0' ++ ds

/-- A character inside quotes. -/
def quotedChar (mark : Char) (c : Char) : List Char :=
  if c = mark || c = '\\' then ['\\', c]
  else if c = '\n' then ['\\', 'n']
  else if c = '\r' then ['\\', 'r']
  else if c = '\t' then ['\\', 't']
  else if isShapeless c then
    let n := c.toNat
    if n < 0x100 then '\\' :: 'x' :: hexPadded 2 n
    else if n < 0x10000 then '\\' :: 'u' :: hexPadded 4 n
    else '\\' :: 'U' :: hexPadded 8 n
  else [c]

/-- The mark that a text is quoted with: single, unless only the double one is free in it. -/
def quotationMark (cs : List Char) : Char :=
  if cs.contains '\x27' && !cs.contains '\x22' then '\x22' else '\x27'

def quoted (s : String) : String :=
  let mark := quotationMark s.toList
  String.ofList (mark :: s.toList.flatMap (quotedChar mark) ++ [mark])

example : quoted "a\n\u200b" = "\x27a\\n\\u200b\x27" := by decide +kernel

end Text

def Unbounded.name : Unbounded → String
  | positive => "inf"
  | negative => "-inf"
  | undefined => "nan"

namespace Json

mutual
def spelled : Json → String
  | null => "None"
  | bool b => if b then "True" else "False"
  | int n => toString n
  | decimal x => x.text
  | unbounded u => u.name
  | str s => Text.quoted s
  | arr items => "[" ++ ", ".intercalate (spelledList items) ++ "]"
  | obj e => "\x7b" ++ ", ".intercalate (spelledEntries e) ++ "\x7d"

def spelledList : List Json → List String
  | [] => []
  | j :: rest => spelled j :: spelledList rest

def spelledEntries : List (String × Json) → List String
  | [] => []
  | (key, j) :: rest => (Text.quoted key ++ ": " ++ spelled j) :: spelledEntries rest
end

/-- The text of a value in a message. -/
def inText : Json → String
  | str s => s
  | j => j.spelled

@[simp] theorem inText_str (s : String) : (str s).inText = s := rfl

end Json
end Procedoc
