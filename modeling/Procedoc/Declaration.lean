import Procedoc.FieldName
import Procedoc.Shaping

/-! # Declarations

Models are declared one after another, possibly on the base of an earlier one, and may name models
that are declared later or themselves.

* `Declaration.record` is the record that a declaration means, given those before it.
* `Catalog.declare` works out the layouts: of each model once it is declared, if all models that it
  names are, and of each model again when all are declared.
-/

namespace Procedoc
set_option autoImplicit false

/-- A field as it is declared: with marks around its type, and with facts and bounds of its own. -/
structure DeclaredField where
  name : String
  type : TypeExpr
  facts : Facts := {}
  bounds : List Bound := []
  deriving Inhabited

/-- A model as it is declared. -/
structure Declaration where
  name : String
  doc : Option String := none
  base : Option String := none
  config : Config := []
  fields : List DeclaredField := []
  deriving Inhabited

/-- Writes a field over the one of the same name, or after all others. -/
def putField : List (Field TypeExpr) → Field TypeExpr → List (Field TypeExpr)
  | [], f => [f]
  | g :: rest, f => if g.name = f.name then f :: rest else g :: putField rest f

/-- The record of some fields under settings, which may have a rule for outside names. -/
def Record.ofFields (name : String) (doc : Option String) (config : Config)
    (fields : List (Field TypeExpr)) : Record TypeExpr where
  name := name
  doc := doc
  config := config
  fields := fields.map (Field.underRule (Config.nameRule? config))

namespace DeclaredField

/-- Whether nothing is said of the field but its type. -/
def isBare (f : DeclaredField) : Bool := f.facts == {} && f.bounds.isEmpty

/-- The field that is meant, if it is one. -/
def field? (config : Config) (f : DeclaredField) : Except Fault (Option (Field TypeExpr)) := do
  let standing ← (FieldName.declared config f.isBare f.name).mapError Fault.unfitName
  match Field.resolve? f.name f.type f.facts f.bounds with
  | none => .error .twoFallbacks
  | some resolved =>
    match standing with
    | .free => return some resolved
    | .hidden => return none
    | .held value =>
      return some { resolved with facts := { resolved.facts with fallback := .value value } }

end DeclaredField

/-- The record that a declaration means: the fields and settings of its base, and its own. -/
def Declaration.record (before : List (Record TypeExpr)) (d : Declaration) :
    Except Fault (Record TypeExpr) := do
  let base := d.base.bind fun name => before.find? fun r => r.name = name
  let config := Entries.override ((base.map Record.config).getD []) d.config
  let own ← d.fields.filterMapM (DeclaredField.field? config)
  return Record.ofFields d.name d.doc config
    (own.foldl putField ((base.map Record.fields).getD []))

namespace Catalog

/-- The catalog with the layout of a model worked out, if all models in it are declared. -/
def learn (edition : Nat) (c : Catalog) (name : String) : Except Fault Catalog :=
  let others := { c with layouts := Entries.without c.layouts name }
  let (outcome, w) := others.work (.model name)
  match outcome with
  | .ok l =>
    let top : Shape := match l.top with
      | .reference _ => .shared ⟨name, edition⟩
      | s => s
    .ok { c with layouts := Entries.put c.layouts name { l with top }, remarks := w.remarks }
  | .error .unresolved => .ok { others with remarks := w.remarks }
  | .error stop => .error stop.fault

def add (c : Catalog) (d : Declaration) : Except Fault Catalog := do
  let r ← d.record c.models
  { c with models := c.models ++ [r] }.learn 0 r.name

/-- The catalog of some declarations. -/
def declare (ds : List Declaration) (enumerations : List Enumeration) :
    Except Fault Catalog := do
  let c ← ds.foldlM add { enumerations }
  (c.models.map Record.name).foldlM (learn 1) c

end Catalog
end Procedoc
