import Procedoc.Exchange
import Procedoc.Procedure

/-! # Operations

`Procedure.operation` documents one procedure: its parameters, the body of its request if its method
has one, and its responses.  A violation met on the way names the procedure and is reported.
-/

namespace Procedoc
set_option autoImplicit false

structure Operation where
  id : String
  summary : Option String := none
  description : Option String := none
  tags : List String := []
  deprecated : Bool := false
  body : Option Body := none
  parameters : List Parameter := []
  responses : Responses

/-- An entry for a text that is there and not empty. -/
def textEntry (key : String) (text : Option String) : Entries Json :=
  match text with
  | some t => if t.isEmpty then [] else [(key, .str t)]
  | none => []

def Operation.toJson (o : Operation) : Json :=
  .obj (
    [("operationId", .str o.id)]
      ++ textEntry "summary" o.summary
      ++ textEntry "description" o.description
      ++ (if o.tags.isEmpty then [] else [("tags", .strings o.tags)])
      ++ (if o.deprecated then [("deprecated", .bool true)] else [])
      ++ (o.body.map fun b => ("requestBody", b.toJson)).toList
      ++ [("parameters", .arr (o.parameters.map Parameter.toJson)),
        ("responses", o.responses.toJson)])

/-- A computation about one procedure: a violation that ends it carries the name of the procedure
and is reported. -/
def Traced.about {α : Type} (procedure : String) (x : Traced α) : Traced α :=
  match x.outcome with
  | .ok _ => x
  | .error f =>
    let named := f.inProcedure procedure
    match named.report? with
    | some r => ⟨x.events ++ [.operationFailed r], .error named⟩
    | none => ⟨x.events, .error named⟩

/-- The body and the parameters of a procedure.  Without input the template must have no
placeholders. -/
def Procedure.inputs (c : Catalog) (p : Procedure) : Traced (Option Body × List Parameter) := do
  match p.input, p.method.hasBody with
  | some input, true =>
    let r ← input.request c p.path
    return (some r.body, r.parameters)
  | input, _ =>
    let source := input.getD (.schema (.ofFields {} []))
    return (none, ← source.allParameters c p.path)

def Procedure.heedInput (c : Catalog) (p : Procedure) : Catalog :=
  match p.input with
  | some input => if p.method.hasBody then c.heedInput input p.path else c.heedSource input
  | none => c

/-- The catalog after a procedure was documented. -/
def Procedure.heed (c : Catalog) (p : Procedure) : Catalog := (p.heedInput c).heedOutput p.output

def Procedure.operation (c : Catalog) (p : Procedure) : Traced Operation :=
  Traced.about p.name do
    let (body, parameters) ← p.inputs c
    let responses ← p.output.responses (p.heedInput c)
    return {
      id := p.name
      summary := p.summary
      description := p.description
      tags := p.tags
      deprecated := p.deprecated
      body
      parameters
      responses }

end Procedoc
