import Procedoc.Facts

/-! # Types

A `TypeExpr` is the type of a field or of a whole input: a built-in type, a declared model or
enumeration, a container, a union, or one of these with marks around it.

* `Field` is a named type with its marks and facts, `Record` a named group of fields.
* `TypeExpr.unionOf`, `TypeExpr.piped`, `TypeExpr.withMarks` and `TypeExpr.oneOf` build the
  compound types and keep them in normal form: unions are flat and without repetition, marks
  stand on one level, literals are distinct.
-/

namespace Procedoc
set_option autoImplicit false

/-! ## Types -/

inductive Plain where
  | str
  | int
  | float
  | bool
  | none
  | any
  | bytes
  | date
  | datetime
  | time
  | uuid
  | list
  | dict
  | tuple
  | set
  | frozenset
  | object
  /-- Functions: a type that no schema describes, although values can be checked against it. -/
  | callable
  /-- A type of which nothing is known. -/
  | sealed
  deriving DecidableEq, Inhabited

/-- The containers whose items share one type. -/
inductive Container where
  | list
  | set
  | frozenset
  | tuple
  deriving DecidableEq, Inhabited

/-- How a union was written. -/
inductive UnionForm where
  | named
  | piped
  deriving DecidableEq, Inhabited

/-- A field: its own name, its type without marks, the marks and the facts. -/
structure Field (α : Type) where
  name : String
  type : α
  marks : List Mark := []
  facts : Facts := {}
  /-- The name for the outside that a rule for names gives. -/
  ruled : Option String := none
  deriving Inhabited

/-- A named group of fields. -/
structure Record (α : Type) where
  name : String
  doc : Option String := none
  config : List (String × Json) := []
  fields : List (Field α) := []
  deriving Inhabited

inductive TypeExpr where
  | plain (p : Plain)
  /-- A declared model. -/
  | model (name : String)
  /-- A declared enumeration. -/
  | enumeration (name : String)
  | literal (values : List Value)
  | container (c : Container) (item : TypeExpr)
  /-- A tuple of fixed length. -/
  | tuple (items : List TypeExpr)
  | dict (key value : TypeExpr)
  | union (form : UnionForm) (members : List TypeExpr)
  | marked (base : TypeExpr) (marks : List Mark)
  /-- A group of fields that was put together on the spot. -/
  | record (r : Record TypeExpr)
  deriving Inhabited

namespace TypeExpr

def str : TypeExpr := plain .str

/-- The type whose only value is the absence of a value. -/
def none : TypeExpr := plain .none

/-- The type of all values. -/
def any : TypeExpr := plain .any

/-- Whether the type is that of the absence of a value. -/
def isNone : TypeExpr → Bool
  | plain .none => true
  | _ => false

mutual
/-- Whether two types are equal; a type that was put together on the spot equals none. -/
def same : TypeExpr → TypeExpr → Bool
  | plain p, b => match b with
    | plain q => p == q
    | _ => false
  | model m, b => match b with
    | model n => m == n
    | _ => false
  | enumeration e, b => match b with
    | enumeration f => e == f
    | _ => false
  | literal xs, b => match b with
    | literal ys => xs.all (fun x => ys.any x.alike) && ys.all fun y => xs.any y.alike
    | _ => false
  | container c a, b => match b with
    | container d a' => c == d && same a a'
    | _ => false
  | tuple xs, b => match b with
    | tuple ys => sameList xs ys
    | _ => false
  | dict k v, b => match b with
    | dict k' v' => same k k' && same v v'
    | _ => false
  | union _ xs, b => match b with
    | union _ ys => xs.length == ys.length && sameMembers xs ys
    | _ => false
  | marked a marks, b => match b with
    | marked a' marks' => same a a' && Mark.sameList marks marks'
    | _ => false
  | record _, _ => false

def sameList : List TypeExpr → List TypeExpr → Bool
  | [], [] => true
  | x :: xs, y :: ys => same x y && sameList xs ys
  | _, _ => false

/-- Whether the second list has every type of the first. -/
def sameMembers : List TypeExpr → List TypeExpr → Bool
  | [], _ => true
  | x :: xs, ys => ys.any (same x) && sameMembers xs ys
end

/-- The members of a union, or the type itself as its only member. -/
def members : TypeExpr → List TypeExpr
  | union _ ms => ms
  | a => [a]

/-- The members of a union of the types, in order and without repetition. -/
def alternatives (types : List TypeExpr) : List TypeExpr :=
  (types.flatMap members).foldl
    (fun kept a => if kept.any (same a) then kept else kept ++ [a]) []

def unionOf (form : UnionForm) (types : List TypeExpr) : TypeExpr :=
  match alternatives types with
  | [a] => a
  | ms => union form ms

/-- Whether a type, written into a union with bars, makes it a named one. -/
def namesUnion : TypeExpr → Bool
  | union form _ => form = .named
  | literal _ | marked .. | plain .callable => true
  | _ => false

/-- The union of types that are written with bars between them. -/
def piped (types : List TypeExpr) : TypeExpr :=
  unionOf (if types.any namesUnion then .named else .piped) types

/-- The union of a type with the absence of a value. -/
def optional (a : TypeExpr) : TypeExpr := unionOf .named [a, none]

/-- A type with further marks; those already there come first. -/
def withMarks (base : TypeExpr) (marks : List Mark) : TypeExpr :=
  match base with
  | marked inner before => marked inner (before ++ marks)
  | a => if marks.isEmpty then a else marked a marks

def oneOf (values : List Value) : TypeExpr := literal (Value.dedupe values)

/-- A type without its outermost marks, and these marks. -/
def unmarked : TypeExpr → TypeExpr × List Mark
  | marked base marks => (base, marks)
  | a => (a, [])

@[simp] theorem unmarked_marked (base : TypeExpr) (marks : List Mark) :
    unmarked (marked base marks) = (base, marks) := rfl

/-- A type for fields that may be null when left out: the member that says so goes. -/
def withoutNone : TypeExpr → TypeExpr
  | union form ms =>
    match ms.filter fun m => !m.isNone with
    | [] => union form ms
    | [m] => m
    | kept => unionOf .named kept
  | a => a

end TypeExpr

/-! ## Fields -/

namespace Field

/-- The bounds that facts carry along, as marks. -/
def boundMarks (bounds : List Bound) : List Mark := bounds.map .bound

/-- The marks that stand in the place of one: facts leave their bounds behind. -/
def flatten : Mark → List Mark
  | .field _ bounds => boundMarks bounds
  | m => [m]

/-- The facts among the marks, later ones over earlier ones. -/
def factsOf (marks : List Mark) : Facts :=
  marks.foldl (fun f m => match m with
    | .field facts _ => f.merge facts.spread
    | _ => f) {}

/-- Whether a value and a way to make one anew are both given. -/
def clashes (fallbacks : List Fallback) : Bool :=
  fallbacks.any (fun f => f.value?.isSome) && fallbacks.any fun f => f.made?.isSome

/-- The fallbacks that facts among the marks give. -/
def fallbacksOf (marks : List Mark) : List Fallback :=
  marks.filterMap fun
    | .field facts _ => some facts.fallback
    | _ => none

/-- The field that is meant by a name, a type with marks, and the field's own facts and bounds: own
facts go over those among the marks, own bounds come before the marks.  There is none where both a
default and a way to make one are given. -/
def resolve? (name : String) (type : TypeExpr) (facts : Facts) (bounds : List Bound) :
    Option (Field TypeExpr) :=
  let (base, marks) := type.unmarked
  if clashes (facts.fallback :: fallbacksOf marks) then none
  else some
    { name
      type := base
      marks := boundMarks bounds ++ marks.flatMap flatten
      facts := (factsOf marks).merge facts.spread }

/-- The field of a name and a type with marks that states its own default, or that it has none; only
a way to make the value anew, given among the marks, stays beside the latter. -/
def stated? (name : String) (type : TypeExpr) (fallback : Fallback) : Option (Field TypeExpr) :=
  let (base, marks) := type.unmarked
  let made := (fallbacksOf marks).filterMap Fallback.made?
  if clashes (fallback :: made.map .made) then none
  else some
    { name
      type := base
      marks := marks.flatMap flatten
      facts := { factsOf marks with
        fallback := if fallback.isRequired then (made.getLast?.map .made).getD .required
          else fallback } }

/-- The facts of a field, its names for the outside filled in by the rule. -/
def known {α : Type} (f : Field α) : Facts := f.facts.withGenerated f.ruled

/-- The field with the name that a rule gives.  Where it has a name of its own, the first rule that
came to it fills in the others, else the last one names it. -/
def underRule {α : Type} (rule : Option (String → String)) (f : Field α) : Field α :=
  match rule with
  | some rule =>
    if f.facts.isNamed && f.ruled.isSome then f else { f with ruled := some (rule f.name) }
  | none => f

end Field
end Procedoc
