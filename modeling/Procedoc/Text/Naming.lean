import Procedoc.Text.Case

/-! # Rules for names

How a field that has no name of its own for the outside gets one: `pascal` and `camel` join the
words that underscores divide, `snake` divides the words that capitals begin.
-/

namespace Procedoc.Text
set_option autoImplicit false

def isCapital (c : Char) : Bool := 'A' ≤ c && c ≤ 'Z'

def isSmall (c : Char) : Bool := 'a' ≤ c && c ≤ 'z'

def isDigit (c : Char) : Bool := '0' ≤ c && c ≤ '9'

/-- Drops every underscore between a letter or digit and a capital or digit. -/
def joinWords : List Char → List Char
  | a :: '_' :: b :: rest =>
    if (isCapital a || isSmall a || isDigit a) && (isCapital b || isDigit b) then
      a :: joinWords (b :: rest)
    else a :: joinWords ('_' :: b :: rest)
  | a :: rest => a :: joinWords rest
  | [] => []

/-- Words joined, each with a capital. -/
def pascal (name : String) : String := String.ofList (joinWords (title name).toList)

/-- Whether a small letter follows a digit somewhere. -/
def hasSmallAfterDigit : List Char → Bool
  | a :: b :: rest => (isDigit a && isSmall b) || hasSmallAfterDigit (b :: rest)
  | _ => false

/-- Whether the name is already written as joined words that begin with a small letter. -/
def isCamel (cs : List Char) : Bool :=
  (match cs with
    | c :: _ => isSmall c
    | [] => false)
  && cs.all (fun c => isCapital c || isSmall c || isDigit c) && !hasSmallAfterDigit cs

/-- Leading underscores as they are, and the capital after them small. -/
def lowerFirst : List Char → List Char
  | '_' :: rest => '_' :: lowerFirst rest
  | c :: rest => if isCapital c then lowerForm c ++ rest else c :: rest
  | [] => []

/-- Words joined, each but the first with a capital. -/
def camel (name : String) : String :=
  if isCamel name.toList then name else String.ofList (lowerFirst (pascal name).toList)

/-- Writes an underscore at every place where a word begins. -/
def divideWords : List Char → List Char
  | a :: b :: rest =>
    let begins :=
      (isCapital a && isCapital b && (match rest with
        | c :: _ => isSmall c
        | [] => false))
      || (isSmall a && isCapital b) || (isDigit a && isCapital b) || (isSmall a && isDigit b)
    if begins then a :: '_' :: divideWords (b :: rest) else a :: divideWords (b :: rest)
  | cs => cs

/-- Small words with underscores between them. -/
def snake (name : String) : String :=
  lower (String.ofList ((divideWords name.toList).map fun c => if c = '-' then '_' else c))

example : pascal "page_no" = "PageNo" ∧ camel "page_no" = "pageNo" ∧ camel "sortKey" = "sortKey"
    ∧ snake "sortKeyABCd2" = "sort_key_ab_cd_2" := by decide +kernel

end Procedoc.Text
