import Procedoc.TypeExpr
import Procedoc.Fault

/-! # Schemas

A `Schema` is what documents are made from: a tree in which every input and every field of an input
is a text, an object, any other type, or one of these in wrappers that say that it may be left out,
what it defaults to, or which checks run on it.

Two questions are asked of a schema, and they are independent of each other:

* `Schema.base` takes the wrappers off and tells what the schema is;
* `Schema.isOptional` looks at the wrappers and tells whether a value may be left out.

`Schema.without` is an object without some of its fields.  A wrapper that wraps nothing is kept as
it is; whoever needs what it wraps refuses it.
-/

namespace Procedoc
set_option autoImplicit false

inductive Kind where
  | object
  | string
  | optional
  | default
  | effect
  | other
  deriving DecidableEq, Inhabited

def Kind.name : Kind → String
  | object => "object"
  | string => "string"
  | optional => "optional"
  | default => "default"
  | effect => "effect"
  | other => "other"

/-- What a wrapper says of the schema in it. -/
inductive Wrapper where
  /-- It may be left out, and then is null. -/
  | optional
  /-- It may be left out; the default is made anew each time where no value is given here. -/
  | default (value : Option Value)
  /-- Checks run on it. -/
  | effect (checks : List Mark)
  deriving Inhabited

def Wrapper.kind : Wrapper → Kind
  | optional => .optional
  | default _ => .default
  | effect _ => .effect

/-- What a schema without parts says: its type, if that was given, its marks, a description. -/
structure Leaf where
  type : Option TypeExpr := none
  marks : List Mark := []
  description : Option String := none
  deriving Inhabited

/-- What an object says besides its fields. -/
structure Head where
  name : Option String := none
  description : Option String := none
  /-- The declared model whose fields these are, all of them. -/
  model : Option String := none
  config : Option (List (String × Json)) := none
  /-- Whether the whole object may be left out. -/
  mayBeAbsent : Bool := false
  deriving Inhabited

/-- A schema.  Each has an origin: the field of a model from which it was read, if there is one. -/
inductive Schema where
  | text (leaf : Leaf) (origin : Option (Field TypeExpr))
  | other (leaf : Leaf) (origin : Option (Field TypeExpr))
  | wrapped (wrapper : Wrapper) (inner : Option Schema) (origin : Option (Field TypeExpr))
  | object (head : Head) (fields : List (String × Schema)) (origin : Option (Field TypeExpr))
  deriving Inhabited

namespace Schema

/-! ## Building -/

/-- An object without origin. -/
def ofFields (head : Head) (fields : Entries Schema) : Schema := object head fields none

def wrap (w : Wrapper) (inner : Schema) : Schema := wrapped w (some inner) none

/-- A schema that may be left out. -/
def optional (inner : Schema) : Schema := wrap .optional inner

def withDefault (inner : Schema) (value : Option Value) : Schema := wrap (.default value) inner

def checked (inner : Schema) (checks : List Mark) : Schema := wrap (.effect checks) inner

def readFrom (field : Field TypeExpr) : Schema → Schema
  | text leaf _ => text leaf (some field)
  | other leaf _ => other leaf (some field)
  | wrapped w inner _ => wrapped w inner (some field)
  | object head fields _ => object head fields (some field)

/-! ## Parts -/

def kind : Schema → Kind
  | text _ _ => .string
  | other _ _ => .other
  | wrapped w _ _ => w.kind
  | object _ _ _ => .object

def isWrapper : Schema → Bool
  | wrapped _ _ _ => true
  | _ => false

/-- The field from which the schema was read. -/
def origin : Schema → Option (Field TypeExpr)
  | text _ o | other _ o | wrapped _ _ o | object _ _ o => o

def fields : Schema → Entries Schema
  | object _ fs _ => fs
  | _ => []

/-- The keys of the fields of an object, in order. -/
def keys (s : Schema) : List String := Entries.keys s.fields

def name : Schema → Option String
  | object head _ _ => head.name
  | _ => none

/-- The description that the schema has itself. -/
def description : Schema → Option String
  | text leaf _ | other leaf _ => leaf.description
  | object head _ _ => head.description
  | wrapped _ _ _ => none

def inner? : Schema → Option Schema
  | wrapped _ inner _ => inner
  | _ => none

/-! ## Questions -/

/-- The schema without the wrappers around it. -/
def base : Schema → Schema
  | wrapped w inner o =>
    match inner with
    | some s => base s
    | none => wrapped w none o
  | s => s

/-- Whether a value may be left out. -/
def isOptional : Schema → Bool
  | wrapped w inner _ =>
    match w with
    | .optional | .default _ => true
    | .effect _ =>
      match inner with
      | some s => isOptional s
      | none => false
  | object head _ _ => head.mayBeAbsent
  | text _ _ | other _ _ => false

/-- An object without the named fields; where nothing goes, the very object. -/
def without (s : Schema) (names : List String) : Except Violation Schema :=
  match s with
  | object head fields o =>
    if fields.any fun f => names.contains f.1 then
      .ok (object { head with model := none } (Entries.withoutAll fields names) o)
    else .ok s
  | _ => .error (.objectKindRequired "omit" s.kind.name)

@[simp] theorem base_wrap (w : Wrapper) (s : Schema) : (wrap w s).base = s.base := by
  simp [wrap, base]

@[simp] theorem isOptional_optional (s : Schema) : s.optional.isOptional = true := by
  simp [optional, wrap, isOptional]

@[simp] theorem isOptional_withDefault (s : Schema) (v : Option Value) :
    (s.withDefault v).isOptional = true := by
  simp [withDefault, wrap, isOptional]

@[simp] theorem origin_readFrom (f : Field TypeExpr) (s : Schema) :
    (s.readFrom f).origin = some f := by
  cases s <;> rfl

end Schema
end Procedoc
