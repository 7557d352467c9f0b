import Procedoc.Fragment
import Procedoc.Inlining
import Procedoc.Schema.Introspection
import Procedoc.Schema.Restoring

/-! # Rendering

`Schema.render` is the JSON Schema that documents show for a schema.  A schema without parts and an
object show what their type shows; optional and checked schemas show what they wrap; a default is
written over it.  What the field says that the schema was read from goes over all of this, and then
definitions are inlined.
-/

namespace Procedoc
set_option autoImplicit false

/-- The fault that a hindrance is, met at a type in a role. -/
def Hindrance.fault (role : String) (type : TypeExpr) : Hindrance → Fault
  | stop .unsupported | stop .unresolved | obstacle .indescribable =>
    (Violation.notASchema role type.sortName).fault
  | stop s => s.fault
  | obstacle .looseReference => .unknownReference
  | obstacle .unhashable => .unhashableReference
  | obstacle .unreadable => .unreadableReference
  | obstacle .undecodable => .undecodableOctets
  | obstacle .unserializable => .unserializableValue
  | obstacle .unfitSetting => .unfitSetting

/-- The schema of a type with its definitions, asked for in a role. -/
def Catalog.fragmentFor (c : Catalog) (side : Side) (role : String) (type : TypeExpr) :
    Except Fault (Entries Json) :=
  (c.fragment side type).mapError fun h => h.fault role type

/-- The schema of a type, without definitions. -/
def Catalog.describe (c : Catalog) (side : Side) (role : String) (type : TypeExpr) :
    Traced Json := do
  inlined (← c.fragmentFor side role type)

/-- What facts write over the schema of the field that they are about. -/
def Facts.remarks (f : Facts) : Entries Json :=
  let unlessEmpty (key : String) (text : Option String) : Entries Json :=
    match text with
    | some t => if t.isEmpty then [] else [(key, .str t)]
    | none => []
  let own : Entries Json :=
    unlessEmpty "title" f.title ++ unlessEmpty "description" f.description
      ++ (match f.examples with
        | some (e :: es) => [("examples", .arr (e :: es))]
        | _ => [])
      ++ (match f.deprecated with
        | some (.flag true) => [("deprecated", .bool true)]
        | some (.reason r) => if r.isEmpty then [] else [("deprecated", .bool true)]
        | _ => [])
  match f.extra with
  | some (.entries e) => Entries.override own e
  | _ => own

namespace Schema

/-- What a schema shows of itself, with the definitions it refers to. -/
def shown (c : Catalog) (side : Side) (s : Schema) : Except Fault (Entries Json) :=
  match s with
  | wrapped w inner _ =>
    match inner with
    | none => .error (.nothingWrapped w.kind.name)
    | some i => do
      let e ← shown c side i
      match w with
      | .default (some v) => return Entries.put e "default" (← c.data v)
      | _ => return e
  | s => do
    let type ← s.type
    c.fragmentFor side (orIfEmpty s.name s.kind.name) type

def render (c : Catalog) (side : Side) (s : Schema) : Traced Json := do
  let e ← shown c side s
  match s.origin with
  | some f => inlined (Entries.override e f.facts.remarks)
  | none => inlined e

/-- The catalog after a schema was rendered. -/
def heededBy (c : Catalog) (s : Schema) : Catalog :=
  match s.base.type with
  | .ok type => c.heed type
  | .error _ => c

end Schema
end Procedoc
