import Procedoc.Text.Blank
import Procedoc.Text.CharacterClass
import Procedoc.Text.Word

/-! # Patterns

Whether a text is a regular expression that can be matched in time linear in the input.  There are
groups, alternatives, character classes, repetitions and flags; there are neither look-arounds nor
references to groups, and a repetition has to have something before it.

`isPattern` walks once through the text.  Its parts, `escape?`, `groupHead?`, `counted?` and
`bracketed?`, read one construct each and return what comes after it.
-/

namespace Procedoc.Text
set_option autoImplicit false

/-! ## Escapes -/

/-- What an escape stands for. -/
inductive Escaped where
  | char (c : Char)
  /-- A set of characters. -/
  | set
  /-- A place between characters. -/
  | place

/-- The value of a digit in base 16. -/
def hexValue? (c : Char) : Option Nat :=
  if '0' ≤ c && c ≤ '9' then some (c.toNat - '0'.toNat)
  else if 'a' ≤ c && c ≤ 'f' then some (c.toNat - 'a'.toNat + 10)
  else if 'A' ≤ c && c ≤ 'F' then some (c.toNat - 'A'.toNat + 10)
  else none

/-- The number that digits in base 16 write. -/
def hexNumber? (ds : List Char) : Option Nat :=
  if ds.isEmpty then none
  else ds.foldlM (fun n d => (hexValue? d).map fun v => 16 * n + v) 0

/-- The character with a number, if there is one. -/
def charOf? (n : Nat) : Option Char :=
  if n < 0xD800 || (0xDFFF < n && n < 0x110000) then some (Char.ofNat n) else none

/-- The characters up to the first closing brace, and those after it. -/
def upToBrace? (cs : List Char) : Option (List Char × List Char) :=
  match cs.dropWhile (· ≠ '}') with
  | _ :: rest => some (cs.takeWhile (· ≠ '}'), rest)
  | [] => none

/-- A character given by its number, in braces or with so many digits. -/
def numbered? (width : Nat) (cs : List Char) : Option (Char × List Char) :=
  match cs with
  | '{' :: rest => do
    let (ds, rest) ← upToBrace? rest
    return (← charOf? (← hexNumber? ds), rest)
  | cs =>
    if cs.length < width then none
    else do return (← charOf? (← hexNumber? (cs.take width)), cs.drop width)

/-- A class of characters given by its name, in braces or with one letter. -/
def namedClass? (cs : List Char) : Option (List Char) :=
  match cs with
  | '{' :: rest => do
    let (name, rest) ← upToBrace? rest
    if isClassName (name.dropWhile (· = '^')) then some rest else none
  | c :: rest => if isClassName [c] then some rest else none
  | [] => none

/-- Whether the character stands for itself behind a backslash. -/
def isEscapable (c : Char) : Bool :=
  c.toNat < 0x80 && !c.isAlphanum && c ≠ '<' && c ≠ '>' && 0x20 ≤ c.toNat && c.toNat ≠ 0x7F

/-- The words for places at the edge of a word, which stand in braces. -/
def edgeWords : List String := ["start", "end", "start-half", "end-half"]

/-- What comes after the mark of a word's edge: a word in braces belongs to it. -/
def afterEdge? (cs : List Char) : Option (List Char) :=
  match cs with
  | '{' :: rest =>
    let isEdgeChar (c : Char) : Bool := c.isAlpha || c = '-'
    let word := rest.takeWhile isEdgeChar
    if word.isEmpty then some cs
    else
      match rest.dropWhile isEdgeChar with
      | '}' :: after => if edgeWords.contains (String.ofList word) then some after else none
      | _ => none
  | cs => some cs

/-- The escape that begins after a backslash, and what comes after it. -/
def escape? (cs : List Char) : Option (Escaped × List Char) :=
  match cs with
  | [] => none
  | c :: rest =>
    if ['d', 'D', 's', 'S', 'w', 'W'].contains c then some (.set, rest)
    else if c = 'p' || c = 'P' then (namedClass? rest).map fun rest => (.set, rest)
    else if c = 'x' then (numbered? 2 rest).map fun (d, rest) => (.char d, rest)
    else if c = 'u' then (numbered? 4 rest).map fun (d, rest) => (.char d, rest)
    else if c = 'U' then (numbered? 8 rest).map fun (d, rest) => (.char d, rest)
    else if c = 'b' then (afterEdge? rest).map fun rest => (.place, rest)
    else if ['A', 'z', 'B', '<', '>'].contains c then some (.place, rest)
    else match [('a', '\x07'), ('f', '\x0c'), ('t', '\t'), ('n', '\n'), ('r', '\r'),
        ('v', '\x0b')].lookup c with
      | some d => some (.char d, rest)
      | none => if isEscapable c then some (.char c, rest) else none

/-! ## Groups -/

inductive GroupHead where
  | opens
  /-- A group that has a name. -/
  | named (name : List Char)
  /-- Flags for what follows, which are no group. -/
  | flags

/-- Whether the name of a group may begin with the character. -/
def beginsGroupName (c : Char) : Bool := c = '_' || (isWord c && !('0' ≤ c && c ≤ '9'))

/-- Whether the name of a group may contain the character. -/
def continuesGroupName (c : Char) : Bool :=
  isWord c || c = '.' || c = '[' || c = ']'

/-- The name of a group up to the closing angle bracket. -/
def groupName? (cs : List Char) : Option (List Char × List Char) :=
  match cs with
  | c :: rest =>
    if beginsGroupName c then
      match rest.dropWhile continuesGroupName with
      | '>' :: after => some (c :: rest.takeWhile continuesGroupName, after)
      | _ => none
    else none
  | [] => none

/-- Flags up to a colon or a closing parenthesis: each at most once, at most one minus sign, which
does not stand last. -/
def flags? (seen : List Char) : List Char → Option (List Char × List Char)
  | [] => none
  | c :: rest =>
    if c = ':' || c = ')' then
      if seen.head? = some '-' then none else some (seen, c :: rest)
    else if ['i', 'm', 's', 'U', 'u', 'R', 'x', '-'].contains c && !seen.contains c then
      flags? (c :: seen) rest
    else none

/-- The head of the group that begins after a parenthesis, and what comes after it. -/
def groupHead? (cs : List Char) : Option (GroupHead × List Char) :=
  match cs with
  | '?' :: 'P' :: '<' :: rest => (groupName? rest).map fun (n, rest) => (.named n, rest)
  | '?' :: '<' :: rest => (groupName? rest).map fun (n, rest) => (.named n, rest)
  | '?' :: rest => do
    match ← flags? [] rest with
    | (_, ':' :: rest) => some (.opens, rest)
    | ([], _) => none
    | (_, _ :: rest) => some (.flags, rest)
    | (_, []) => none
  | rest => some (.opens, rest)

/-! ## Repetitions -/

/-- The number at the beginning, blanks around it, if there is one; it has at most 32 bits. -/
def count? (cs : List Char) : Option Nat × List Char :=
  let cs := cs.dropWhile isBlank
  let ds := cs.takeWhile Char.isDigit
  let n := ds.foldl (fun n d => 10 * n + (d.toNat - '0'.toNat)) 0
  (if ds.isEmpty || 0xFFFFFFFF < n then none else some n,
    (cs.dropWhile Char.isDigit).dropWhile isBlank)

/-- Drops the question mark that makes a repetition prefer less. -/
def dropLazy (cs : List Char) : List Char :=
  match cs with
  | '?' :: rest => rest
  | cs => cs

/-- The bounds of a repetition after the opening brace, and what comes after them. -/
def counted? (cs : List Char) : Option (List Char) :=
  match count? cs with
  | (some _, '}' :: rest) => some (dropLazy rest)
  | (least, ',' :: rest) =>
    match rest with
    | '}' :: rest => least.map fun _ => dropLazy rest
    | rest =>
      match least, count? rest with
      | some m, (some n, '}' :: rest) => if m ≤ n then some (dropLazy rest) else none
      | _, _ => none
  | _ => none

/-! ## Character classes -/

/-- The names of classes that stand in brackets of their own. -/
def bracketNames : List String := ["alnum", "alpha", "ascii", "blank", "cntrl", "digit", "graph",
  "lower", "print", "punct", "space", "upper", "word", "xdigit"]

/-- What comes after a class named in brackets, if one begins here behind its bracket. -/
def bracketName? (cs : List Char) : Option (List Char) :=
  match cs with
  | ':' :: rest =>
    let rest := if rest.head? = some '^' then rest.drop 1 else rest
    let name := rest.takeWhile Char.isAlpha
    match rest.dropWhile Char.isAlpha with
    | ':' :: ']' :: after =>
      if bracketNames.contains (String.ofList name) then some after else none
    | _ => none
  | _ => none

/-- One member of a class: a character, or none for a set of them. -/
def member? (cs : List Char) : Option (Option Char × List Char) :=
  match cs with
  | '\\' :: rest =>
    match escape? rest with
    | some (.char c, rest) => some (some c, rest)
    | some (.set, rest) => some (none, rest)
    | some (.place, _) | none => none
  | c :: rest => some (some c, rest)
  | [] => none

/-- A member of a class, or a range of members in which the first is not after the last. -/
def range? (cs : List Char) : Option (List Char) := do
  let (first, rest) ← member? cs
  match rest with
  | '-' :: ']' :: _ | '-' :: '-' :: _ => some rest
  | '-' :: rest => do
    let (last, rest) ← member? rest
    match first, last with
    | some a, some b => if a ≤ b then some rest else none
    | _, _ => none
  | rest => some rest

/-- What comes after the head of a class: its negation, and a first bracket or minus signs that
stand for themselves. -/
def afterClassHead (cs : List Char) : List Char :=
  let cs := if cs.head? = some '^' then cs.drop 1 else cs
  match cs with
  | '-' :: _ => cs.dropWhile (· = '-')
  | ']' :: rest => rest
  | cs => cs

/-- What comes after the classes that are open, so many within one another. -/
def bracketed? (fuel depth : Nat) (cs : List Char) : Option (List Char) :=
  match fuel with
  | 0 => none
  | fuel + 1 =>
    match cs with
    | [] => none
    | ']' :: rest => if depth ≤ 1 then some rest else bracketed? fuel (depth - 1) rest
    | '[' :: rest =>
      match bracketName? rest with
      | some rest => bracketed? fuel depth rest
      | none => bracketed? fuel (depth + 1) (afterClassHead rest)
    | '&' :: '&' :: rest => bracketed? fuel depth rest
    | '-' :: '-' :: rest => bracketed? fuel depth rest
    | '~' :: '~' :: rest => bracketed? fuel depth rest
    | cs => do bracketed? fuel depth (← range? cs)

/-! ## The whole -/

/-- Whether the rest of a pattern is one, so many groups being open; `filled` says whether there is
something that can be repeated, and `names` which groups have a name. -/
def isPatternFrom (fuel depth : Nat) (filled : Bool) (names : List (List Char))
    (cs : List Char) : Bool :=
  match fuel with
  | 0 => false
  | fuel + 1 =>
    match cs with
    | [] => depth = 0
    | '(' :: rest =>
      match groupHead? rest with
      | some (.opens, rest) => isPatternFrom fuel (depth + 1) false names rest
      | some (.named n, rest) =>
        !names.contains n && isPatternFrom fuel (depth + 1) false (n :: names) rest
      | some (.flags, rest) => isPatternFrom fuel depth false names rest
      | none => false
    | ')' :: rest => 0 < depth && isPatternFrom fuel (depth - 1) true names rest
    | '|' :: rest => isPatternFrom fuel depth false names rest
    | '[' :: rest =>
      match bracketed? fuel 1 (afterClassHead rest) with
      | some rest => isPatternFrom fuel depth true names rest
      | none => false
    | '{' :: rest =>
      filled && match counted? rest with
        | some rest => isPatternFrom fuel depth true names rest
        | none => false
    | '\\' :: rest =>
      match escape? rest with
      | some (_, rest) => isPatternFrom fuel depth true names rest
      | none => false
    | c :: rest =>
      if c = '?' || c = '*' || c = '+' then
        filled && isPatternFrom fuel depth true names (dropLazy rest)
      else isPatternFrom fuel depth true names rest

def isPattern (s : String) : Bool :=
  isPatternFrom (s.toList.length + 1) 0 false [] s.toList

example : isPattern "^[0-9]\x7b5\x7d$" ∧ isPattern "(?P<a>x|[^]a-z\\d])+?"
    ∧ isPattern "(?i)a\x7b2,\x7d\\p\x7bLu\x7d" ∧ isPattern "" ∧ isPattern "]\x7d"
    ∧ isPattern "\\b\x7bstart\x7d" := by
  decide +kernel

example : ¬isPattern "a\x7b2,1\x7d" ∧ ¬isPattern "a\x7b,5\x7d" ∧ ¬isPattern "(?=a)"
    ∧ ¬isPattern "(a)\\1" ∧ ¬isPattern "*a" ∧ ¬isPattern "[z-a]" ∧ ¬isPattern "(a" ∧ ¬isPattern "[a"
    ∧ ¬isPattern "\\" := by
  decide +kernel

end Procedoc.Text
