import Procedoc.Value

/-! # Marks and facts

What may be said of a type or a field besides the type itself.

* `Bound` is a constraint, `Facts` what is said about a field, `Mark` anything that may be attached
  to a type: a check, a bound, or facts with bounds.
* `Notes` are the entries that marks write over a schema.  Those of several marks add up, and what
  is written by hand goes over what a mark says of its own.
-/

namespace Procedoc
set_option autoImplicit false

/-! ## Marks -/

/-- When a check runs: before, after or around the check of the type, or in its place. -/
inductive Moment where
  | before
  | after
  | around
  | instead
  deriving DecidableEq, Inhabited

/-- What a bound limits. -/
inductive BoundKind where
  | greaterThan
  | atLeast
  | lessThan
  | atMost
  | multipleOf
  | minLength
  | maxLength
  | pattern
  deriving DecidableEq, Inhabited

structure Bound where
  kind : BoundKind
  limit : Json
  deriving DecidableEq, Inhabited

/-- Writes a bound over the one of its kind, or after all others. -/
def Bound.put : List Bound → Bound → List Bound
  | [], b => [b]
  | a :: rest, b => if a.kind = b.kind then b :: rest else a :: put rest b

/-- Under which name a field is read. -/
inductive ReadName where
  | single (name : String)
  /-- Any of several names. -/
  | choices (names : List String)
  /-- A way into a nested value, which is no name. -/
  | path (steps : List String)
  deriving DecidableEq, Inhabited

/-- Where the value of a field comes from when none is given. -/
inductive Fallback where
  /-- Nowhere: a value has to be given. -/
  | required
  | value (v : Value)
  /-- It is made anew each time; here it would be made equal to the value. -/
  | made (v : Value)
  deriving Inhabited, BEq

/-- What is added to the schema of a field. -/
inductive Extra where
  | entries (e : Entries Json)
  /-- The entry that a function adds, which marks that the function ran. -/
  | hook
  deriving Inhabited, BEq

/-- Whether a field is out of use, possibly with a reason. -/
inductive Deprecation where
  | flag (b : Bool)
  | reason (text : String)
  deriving DecidableEq, Inhabited

/-- What is said about a field besides its type and its constraints. -/
structure Facts where
  fallback : Fallback := .required
  outsideName : Option String := none
  readName : Option ReadName := none
  writeName : Option String := none
  title : Option String := none
  description : Option String := none
  examples : Option (List Json) := none
  deprecated : Option Deprecation := none
  extra : Option Extra := none
  deriving Inhabited, BEq

/-- Something attached to a type. -/
inductive Mark where
  | check (moment : Moment)
  | bound (b : Bound)
  | field (facts : Facts) (bounds : List Bound)
  deriving Inhabited

namespace Mark

def isCheck : Mark → Bool
  | check _ => true
  | _ => false

/-- The checks among the marks and all others, each in order. -/
def split (marks : List Mark) : List Mark × List Mark := marks.partition isCheck

@[simp] theorem split_nil : split [] = ([], []) := rfl

/-- Whether two marks are equal; facts are never equal to others. -/
def same : Mark → Mark → Bool
  | check m, check n => m == n
  | bound a, bound b => a.kind == b.kind && a.limit.equal b.limit
  | _, _ => false

def sameList (xs ys : List Mark) : Bool :=
  xs.length == ys.length && (xs.zip ys).all fun p => same p.1 p.2

end Mark

/-! ## Facts -/

/-- Whether a value has to be given. -/
def Fallback.isRequired : Fallback → Bool
  | required => true
  | value _ | made _ => false

/-- Whether a field may be left out and then is null, so that its type need not say so. -/
def Fallback.isNull : Fallback → Bool
  | value v => v.isNull
  | required | made _ => false

/-- The value that is the same each time, if there is one. -/
def Fallback.value? : Fallback → Option Value
  | value v => some v
  | required | made _ => none

/-- The value that is made anew each time, if there is one. -/
def Fallback.made? : Fallback → Option Value
  | made v => some v
  | required | value _ => none

/-- Whether the field is out of use; a reason counts, even an empty one. -/
def Deprecation.holds : Deprecation → Bool
  | flag b => b
  | reason _ => true

/-- What two marks add to a schema: entries add up, and a function counts only by itself. -/
def Extra.merge : Option Extra → Option Extra → Option Extra
  | some (.entries a), some (.entries b) => some (.entries (Entries.override a b))
  | some (.entries a), some .hook => some (.entries a)
  | earlier, later => later.or earlier

namespace Facts

/-- Facts in which the outside name also stands for the names to read and to write under. -/
def spread (f : Facts) : Facts :=
  match f.outsideName with
  | none => f
  | some a => { f with
      readName := f.readName.or (some (.single a))
      writeName := f.writeName.or (some a) }

/-- Later facts over earlier ones; entries for the schema add up. -/
def merge (earlier later : Facts) : Facts where
  fallback := if later.fallback.isRequired then earlier.fallback else later.fallback
  outsideName := later.outsideName.or earlier.outsideName
  readName := later.readName.or earlier.readName
  writeName := later.writeName.or earlier.writeName
  title := later.title.or earlier.title
  description := later.description.or earlier.description
  examples := later.examples.or earlier.examples
  deprecated := later.deprecated.or earlier.deprecated
  extra := Extra.merge earlier.extra later.extra

/-- Whether the facts give the field any name for the outside. -/
def isNamed (f : Facts) : Bool :=
  f.outsideName.isSome || f.readName.isSome || f.writeName.isSome

/-- The name under which the field is read as an input. -/
def inputName (f : Facts) (ownName : String) : String :=
  match f.readName with
  | some (.single name) => name
  | _ => match f.outsideName with
    | some a => if a.isEmpty then ownName else a
    | none => ownName

/-- The name of the property that documents the field as an input. -/
def readProperty (f : Facts) (ownName : String) : String :=
  match f.readName with
  | some (.single name) => name
  | some (.choices (name :: _)) => name
  | some (.choices []) | some (.path _) => ownName
  | none => f.outsideName.getD ownName

/-- The name of the property that documents the field as an output. -/
def writeProperty (f : Facts) (ownName : String) : String :=
  (f.writeName.or f.outsideName).getD ownName

/-- The names that a rule for names gives, where the facts leave them open. -/
def withGenerated (f : Facts) (name : Option String) : Facts := { f with
  outsideName := f.outsideName.or name
  readName := f.readName.or (name.map .single)
  writeName := f.writeName.or name }

end Facts

/-! ## Notes -/

/-- What marks write over a schema. -/
structure Notes where
  /-- What they say of their own. -/
  updates : Entries Json := []
  /-- What was written by hand. -/
  extra : Option Extra := none
  deriving Inhabited

namespace Notes

def empty : Notes := {}

def isEmpty (n : Notes) : Bool := n.updates.isEmpty && n.extra.isNone

/-- Later notes over earlier ones. -/
def merge (earlier later : Notes) : Notes where
  updates := Entries.override earlier.updates later.updates
  extra := Extra.merge earlier.extra later.extra

/-- The entries that were written by hand. -/
def added (n : Notes) : Entries Json :=
  match n.extra with
  | some (.entries e) => e
  | some .hook => [("x-callable", .bool true)]
  | none => []

def onto (n : Notes) (e : Entries Json) : Entries Json :=
  Entries.override (Entries.override e n.updates) n.added

@[simp] theorem onto_empty (e : Entries Json) : empty.onto e = e := rfl

end Notes

/-- The notes of facts.  Nothing written by hand is the same as no entries. -/
def Facts.notes (f : Facts) : Notes where
  updates := [
    f.title.map fun t => ("title", .str t),
    f.description.map fun d => ("description", .str d),
    f.examples.map fun es => ("examples", .arr es),
    if f.deprecated.any Deprecation.holds then some ("deprecated", .bool true) else none
    ].filterMap id
  extra := match f.extra with
    | some (.entries e) => if e.isEmpty then none else some (.entries e)
    | x => x

end Procedoc
