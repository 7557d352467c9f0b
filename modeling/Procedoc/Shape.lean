import Procedoc.Enumeration
import Procedoc.TypeExpr

/-! # Shapes

A `Shape` is a type with its marks put into place, ready to be written as a schema.  A model or an
enumeration may stand in it by a reference; what it refers to is kept beside it under a `Key`.

* `Grip` tells which bounds a type knows, and under which keyword it shows them.
* `Shape.bound` puts a bound into place: in the type if that knows it, else beside it.
* `Shape.note` puts notes over a shape.

A shape with a check before, after or around it is `guarded`; this alone keeps notes that are put
over it off the definition of what it guards.
-/

namespace Procedoc
set_option autoImplicit false

/-! ## Keys -/

/-- What has a definition. -/
inductive Owner where
  | model (name : String)
  | enumeration (name : String)
  /-- A record that was put together on the spot; the number tells it from all others. -/
  | made (name : String) (number : Nat)
  deriving DecidableEq, Inhabited

def Owner.name : Owner → String
  | model name | enumeration name | made name _ => name

/-- The key of a definition: its owner, and the bound that was put around this copy of it. -/
structure Key where
  owner : Owner
  bound : Option Bound := none
  deriving DecidableEq, Inhabited

def Key.model (name : String) : Key := { owner := .model name }

def Key.enumeration (name : String) : Key := { owner := .enumeration name }

/-- The one reference that the users of a model share which contains itself.  A model that is worked
out anew has a new one. -/
structure Anchor where
  model : String
  edition : Nat
  deriving DecidableEq, Inhabited

/-! ## Bounds -/

/-- Which bounds a type knows. -/
inductive Grip where
  | text
  | octets
  | items
  | mapping
  | number
  | moment
  | free
  deriving DecidableEq, Inhabited

namespace Grip

def takes : Grip → BoundKind → Bool
  | text, .minLength | text, .maxLength | text, .pattern
  | octets, .minLength | octets, .maxLength
  | items, .minLength | items, .maxLength
  | mapping, .minLength | mapping, .maxLength
  | number, .greaterThan | number, .atLeast | number, .lessThan | number, .atMost
  | number, .multipleOf
  | moment, .greaterThan | moment, .atLeast | moment, .lessThan | moment, .atMost => true
  | _, _ => false

/-- The keyword under which a type shows a bound that it knows; moments show none. -/
def keyword? : Grip → BoundKind → Option String
  | text, .minLength | octets, .minLength => some "minLength"
  | text, .maxLength | octets, .maxLength => some "maxLength"
  | text, .pattern => some "pattern"
  | items, .minLength => some "minItems"
  | items, .maxLength => some "maxItems"
  | mapping, .minLength => some "minProperties"
  | mapping, .maxLength => some "maxProperties"
  | number, .greaterThan => some "exclusiveMinimum"
  | number, .atLeast => some "minimum"
  | number, .lessThan => some "exclusiveMaximum"
  | number, .atMost => some "maximum"
  | number, .multipleOf => some "multipleOf"
  | _, _ => none

def shown (g : Grip) (bounds : List Bound) : Entries Json :=
  bounds.filterMap fun b => (g.keyword? b.kind).map fun k => (k, b.limit)

end Grip

/-- Which bounds a built-in type knows. -/
def Plain.grip : Plain → Grip
  | str => .text
  | bytes => .octets
  | int | float => .number
  | date | datetime | time => .moment
  | list | tuple | set | frozenset => .items
  | dict => .mapping
  | bool | none | any | uuid | object | callable | sealed => .free

/-- The keyword of a bound beside a type that does not know it. -/
def BoundKind.besideKeyword (isAroundList : Bool) : BoundKind → String
  | greaterThan => "gt"
  | atLeast => "ge"
  | lessThan => "lt"
  | atMost => "le"
  | multipleOf => "multiple_of"
  | minLength => if isAroundList then "minItems" else "minLength"
  | maxLength => if isAroundList then "maxItems" else "maxLength"
  | pattern => "pattern"

/-! ## Shapes -/

/-- A type with its marks put into place. -/
inductive Shape where
  | plain (p : Plain) (bounds : List Bound)
  | literal (values : List Value)
  | container (c : Container) (item : Shape) (bounds : List Bound)
  /-- A tuple of fixed length. -/
  | tuple (items : List Shape) (bounds : List Bound)
  | dict (key value : Shape) (bounds : List Bound)
  | union (members : List Shape)
  /-- The shape, or null. -/
  | nullable (inner : Shape)
  /-- A check before, after or around the shape. -/
  | guarded (inner : Shape)
  /-- A check in the place of the shape; outputs show the type as it is without any mark. -/
  | replaced (inner bare : Shape)
  /-- A check in the place of a type of which nothing is known. -/
  | concealed
  /-- A pattern after a shape that is no text: what comes out is a text that matches it. -/
  | chained (inner : Shape) (pattern : Json)
  | defaulted (inner : Shape) (fallback : Fallback)
  /-- What is defined under a key. -/
  | reference (key : Key)
  /-- A model that contains itself, by the one reference that all users of the model share. -/
  | shared (anchor : Anchor)
  /-- A definition of a record, in its place. -/
  | record (key : Key) (r : Record Shape)
  /-- A definition of an enumeration, in its place. -/
  | enumeration (key : Key) (e : Enumeration)
  /-- Notes over a shape. -/
  | noted (inner : Shape) (notes : Notes)
  deriving Inhabited

namespace Shape

/-- The notes put over a shape, after those that are there. -/
def note (notes : Notes) : Shape → Shape
  | noted inner before => noted inner (before.merge notes)
  | s => if notes.isEmpty then s else noted s notes

def underKey (key : Key) : Shape → Shape
  | record _ r => record key r
  | enumeration _ e => enumeration key e
  | s => s

/-- Whether the shape is a list, with or without checks around it. -/
def isAroundList : Shape → Bool
  | plain p _ => p = .list
  | container c _ _ => c = .list
  | guarded inner | noted inner _ => isAroundList inner
  | _ => false

/-- A bound beside a shape that does not know it. -/
def beside (b : Bound) (s : Shape) : Shape :=
  match b.kind with
  | .pattern => chained s b.limit
  | kind => noted (guarded s) { updates := [(kind.besideKeyword s.isAroundList, b.limit)] }

/-- Which bounds the shape knows. -/
def grip : Shape → Grip
  | plain p _ => p.grip
  | container .. | tuple .. => .items
  | dict .. => .mapping
  | noted inner _ => grip inner
  | _ => .free

def putBound (b : Bound) : Shape → Shape
  | plain p bs => plain p (Bound.put bs b)
  | container c item bs => container c item (Bound.put bs b)
  | tuple items bs => tuple items (Bound.put bs b)
  | dict k v bs => dict k v (Bound.put bs b)
  | noted inner notes => noted (putBound b inner) notes
  | s => s

/-- The key of what the shape refers to, notes apart. -/
def target? : Shape → Option Key
  | reference key => some key
  | shared anchor => some (.model anchor.model)
  | noted inner _ => target? inner
  | _ => none

/-- Puts a bound into place.  What a reference stands for is copied with the bound beside it, so
that notes over the reference are lost, unless the definition is not there yet. -/
def bound (definition? : Key → Option Shape) (b : Bound) : Shape → Shape
  | nullable inner => nullable (bound definition? b inner)
  | noted (nullable inner) notes => noted (nullable (bound definition? b inner)) notes
  | s =>
    match s.target? with
    | some key =>
      match definition? key with
      | some d => beside b (d.underKey { key with bound := some b })
      | none => beside b s
    | none => if s.grip.takes b.kind then putBound b s else beside b s

def boundAll (definition? : Key → Option Shape) (bs : List Bound) (s : Shape) : Shape :=
  bs.foldl (fun s b => s.bound definition? b) s

end Shape
end Procedoc
