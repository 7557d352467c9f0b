import Procedoc.Declaration
import Procedoc.Schema

/-! # Types of schemas

`Schema.type` is the type that a schema stands for, and `Schema.field` the field that it makes
under a name.  A schema that was read from a field makes that very field again.  An object that lost
fields, or never had a model, becomes a record that is put together from its fields.
-/

namespace Procedoc
set_option autoImplicit false

/-- A type with marks and a description. -/
def TypeExpr.described (a : TypeExpr) (marks : List Mark) (description : Option String) :
    TypeExpr :=
  match description with
  | some d =>
    if d.isEmpty then a.withMarks marks
    else a.withMarks (marks ++ [.field { description := some d } []])
  | .none => a.withMarks marks

/-- The field of a record that is put together, if its name is that of one. -/
def Field.kept? (config : Config) (f : Field TypeExpr) :
    Except Fault (Option (Field TypeExpr)) := do
  let isRequired := f.facts.fallback.isRequired
  match ← (FieldName.assembled config isRequired f.name).mapError Fault.unfitName with
  | .hidden => return none
  | .free | .held _ => return some f

/-- The record of fields that were put together; a later field takes the place of an earlier one of
its name. -/
def Record.assemble (name : String) (doc : Option String) (config : Config)
    (fields : List (Field TypeExpr)) : Except Fault (Record TypeExpr) := do
  let kept ← fields.filterMapM (Field.kept? config)
  return Record.ofFields name doc config (kept.foldl putField [])

namespace Schema

/-- The type of a leaf, or the one that stands for leaves of its kind. -/
def leafType (leaf : Leaf) (fallback : TypeExpr) : TypeExpr :=
  (leaf.type.getD fallback).described leaf.marks leaf.description

/-- Where the value of the field that a schema makes comes from when none is given. -/
def fallback : Schema → Fallback
  | wrapped .optional _ _ => .value .null
  | wrapped (.default value) _ _ => .value (value.getD .null)
  | _ => .required

/-- The field that a schema of the given type makes under a name.  One that was read from a field
keeps what was said of it, but not the name that a rule gave. -/
def fieldOfType (name : String) (s : Schema) (type : Except Fault TypeExpr) :
    Except Fault (Field TypeExpr) :=
  match s.origin with
  | some f => .ok { f with name, ruled := none }
  | none => do
    match Field.stated? name (← type) s.fallback with
    | some f => return f
    | none => .error .twoFallbacks

mutual
/-- The type that a schema stands for. -/
def type : Schema → Except Fault TypeExpr
  | text leaf _ => .ok (leafType leaf .str)
  | other leaf _ => .ok (leafType leaf .any)
  | wrapped w inner _ =>
    match inner with
    | none => .error (.nothingWrapped w.kind.name)
    | some s => do
      let a ← type s
      match w with
      | .optional => return a.optional
      | .default _ => return a
      | .effect checks => return a.withMarks checks
  | object head fields _ =>
    match head.model with
    | some name => .ok (.model name)
    | none => do
      let made ← fieldsOf fields
      let r ← Record.assemble (orIfEmpty head.name "Input") head.description
        (head.config.getD []) made
      return .record r

/-- The fields that schemas under keys make; one that was read from a field keeps its name. -/
def fieldsOf : List (String × Schema) → Except Fault (List (Field TypeExpr))
  | [] => .ok []
  | (key, s) :: rest => do
    let f ← fieldOfType ((s.origin.map Field.name).getD key) s (type s)
    return f :: (← fieldsOf rest)
end

/-- The field that a schema makes under a name. -/
def field (name : String) (s : Schema) : Except Fault (Field TypeExpr) :=
  fieldOfType name s s.type

end Schema
end Procedoc
