import Procedoc.Schema
import Procedoc.Shaping
import Procedoc.Text.Doc

/-! # Reading schemas from declarations

* `Schema.ofModel` is the object of a declared model, its fields under their names as inputs.  A
  model is opened at most once on the way from the root to a field: inside itself it is a type like
  any other.
* `Schema.ofType` is the schema of a type.
* `Schema.ofSource` is the schema that is meant where a schema is asked for, be it a schema, a type,
  or a value that is neither.
-/

namespace Procedoc
set_option autoImplicit false

namespace TypeExpr

/-- The word for the sort of thing that a type is. -/
def sortName : TypeExpr → String
  | plain .callable => "_CallableType"
  | plain .any => "_AnyMeta"
  | plain _ => "type"
  | model _ | record _ => "ModelMetaclass"
  | enumeration _ => "EnumType"
  | literal _ => "_LiteralGenericAlias"
  | container .. | tuple _ | dict .. => "GenericAlias"
  | union .named _ => "_UnionGenericAlias"
  | union .piped _ => "UnionType"
  | marked .. => "_AnnotatedAlias"

end TypeExpr

namespace Schema

/-! ## Types -/

/-- The schema of a type without marks of its own; `objectOf` opens what models may be opened. -/
def ofBase (objectOf : String → Option Schema) (type : TypeExpr) (marks : List Mark)
    (description : Option String) : Schema :=
  let leaf : Leaf := { type := some type, marks, description }
  match type with
  | .plain .str => text leaf none
  | .model name =>
    match objectOf name with
    | some (object head fields o) =>
      match description with
      | some d =>
        if d.isEmpty then object head fields o
        else object { head with description := some d } fields o
      | none => object head fields o
    | _ => other leaf none
  | _ => other leaf none

/-- The schema of a type: its checks become a wrapper, its other marks stay with the type. -/
def ofMarked (objectOf : String → Option Schema) (type : TypeExpr) (marks : List Mark)
    (description : Option String) : Schema :=
  let (base, own) := type.unmarked
  let (checks, others) := Mark.split own
  let schema := ofBase objectOf base (marks ++ others) description
  if checks.isEmpty then schema else checked schema checks

/-! ## Fields -/

/-- The schema of a field.  A field that is null when left out is optional, and its type need not
allow null; a field with another default has a wrapper that holds it. -/
def ofField (objectOf : String → Option Schema) (f : Field TypeExpr) : Schema :=
  let (checks, others) := Mark.split f.marks
  let fallback := f.facts.fallback
  let type := if fallback.isNull then f.type.withoutNone else f.type
  let typed := ofMarked objectOf type others f.facts.description
  let guarded := if checks.isEmpty then typed else checked typed checks
  let whole :=
    if fallback.isNull then optional guarded
    else if fallback.isRequired then guarded
    else withDefault guarded fallback.value?
  whole.readFrom f

/-! ## Models -/

/-- The object of a record of fields, under their names as inputs. -/
def ofRecord (objectOf : String → Option Schema) (r : Record TypeExpr) : Schema :=
  ofFields
    { name := some r.name
      description := Text.describedBy r.doc
      model := some r.name
      config := some r.config }
    (Entries.ofList
      (r.fields.map fun f => (f.known.inputName f.name, ofField objectOf f)))

/-- The object of a declared model that is not among those open around it. -/
def objectOf (c : Catalog) (seen : List String) (name : String) : Option Schema :=
  match h : c.open? seen name with
  | none => none
  | some r =>
    have := Catalog.length_unseen_lt h
    some (ofRecord (fun inside => objectOf c (name :: seen) inside) r)
termination_by (c.unseen seen).length

theorem objectOf_of_open? {c : Catalog} {seen : List String} {name : String}
    {r : Record TypeExpr} (h : c.open? seen name = some r) :
    objectOf c seen name = some (ofRecord (objectOf c (name :: seen)) r) := by
  rw [objectOf]
  split
  · simp_all
  · simp_all

theorem objectOf_of_seen {c : Catalog} {seen : List String} {name : String}
    (h : c.open? seen name = none) : objectOf c seen name = none := by
  rw [objectOf]
  split
  · rfl
  · simp_all

/-- The schema of a type. -/
def ofType (c : Catalog) (type : TypeExpr) : Schema :=
  ofMarked (objectOf c []) type [] none

/-- The object of a declared model; a name that nothing declares is a type of its own. -/
def ofModel (c : Catalog) (name : String) : Schema :=
  (objectOf c [] name).getD (other { type := some (.model name) } none)

/-- The schema, with the word on whether the whole object may be left out. -/
def mayBeAbsent (s : Schema) : Schema :=
  match s with
  | object head fields o => object { head with mayBeAbsent := true } fields o
  | s => s

end Schema

/-! ## Whatever is offered as a schema -/

/-- What may be offered where a schema is asked for. -/
inductive Source where
  | type (a : TypeExpr)
  | schema (s : Schema)
  /-- A value of data, which is no schema. -/
  | value (j : Json)
  deriving Inhabited

/-- The schema that is meant; `role` tells where it was asked for.  A type has to have a shape. -/
def Schema.ofSource (c : Catalog) (role : String) : Source → Except Fault Schema
  | .schema s => .ok s
  | .type (.model name) => .ok (Schema.ofModel c name)
  | .type a =>
    match (c.work a).1 with
    | .ok _ => .ok (Schema.ofType c a)
    | .error .unfit => .error .unfitBound
    | .error .noValues => .error .noValues
    | .error _ => .error (.violation (.notASchema role a.sortName) none)
  | .value j => .error (.violation (.notASchema role j.sortName) none)

/-- The catalog after a source was taken for a schema. -/
def Catalog.heedSource (c : Catalog) : Source → Catalog
  | .type a => c.heed a
  | .schema _ | .value _ => c

end Procedoc
