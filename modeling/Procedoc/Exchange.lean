import Procedoc.Parameter

/-! # Bodies and responses

* `Source.request`: an input whose fields go into the path as far as the template names them, and
  into the body else.
* `Source.responses`: an output, in the envelope that every successful response has.  The response
  to failures is the same for all operations; `sharedErrorResponse` is its one entry in a document.
-/

namespace Procedoc
set_option autoImplicit false

/-- The content of a body or a response: one schema, as JSON. -/
def contentOf (schema : Json) : Json :=
  .obj [("application/json", .obj [("schema", schema)])]

/-! ## Bodies -/

structure Body where
  required : Bool
  schema : Json

def Body.toJson (b : Body) : Json :=
  .obj [("required", .bool b.required), ("content", contentOf b.schema)]

structure Request where
  body : Body
  parameters : List Parameter

/-- The request that an input with a body makes. -/
def Source.request (c : Catalog) (input : Source) (template : String) : Traced Request := do
  let parts ← (← input.asInput c).partitioned template
  let c := c.heedSource input
  let parameters ← parts.path.parameters c .path
  let schema ← parts.rest.render c .input
  return { body := { required := !parts.rest.isOptional, schema }, parameters }

/-- The catalog after an input was documented with a body. -/
def Catalog.heedInput (c : Catalog) (input : Source) (template : String) : Catalog :=
  let heeding := c.heedSource input
  let parts := (Schema.ofSource c "input" input).toOption.bind fun s =>
    (s.partition template).toOption
  match parts with
  | some parts => parts.rest.heededBy heeding
  | none => heeding

/-! ## Responses -/

/-- The name of the record that a successful response is. -/
def envelopeName : String := "SuccessEnvelope"

/-- The record of a successful response: the word that all is well, and the data. -/
def Schema.envelope (output : Schema) : Except Fault (Record TypeExpr) := do
  let data ← output.field "data"
  let ok : Field TypeExpr :=
    { name := "ok"
      type := .literal [.plain (.bool true)]
      facts := { description := some "是否成功" } }
  Record.assemble envelopeName none [] [ok, data]

/-- Where the response to failures stands in a document. -/
def errorResponseRef : String := "#/components/responses/error"

/-- The responses of an operation: the schema of its success, and the shared one of failures. -/
structure Responses where
  success : Json

def Responses.toJson (r : Responses) : Json :=
  .obj [
    ("200", .obj [("description", .str "Successful response"), ("content", contentOf r.success)]),
    ("default", .obj [("$ref", .str errorResponseRef)])]

def Source.responses (c : Catalog) (output : Source) : Traced Responses := do
  let s ← Schema.ofSource c "output" output
  let envelope ← s.envelope
  let success ← (c.heedSource output).describe .output envelopeName (.record envelope)
  return { success }

/-- The catalog after an output was documented. -/
def Catalog.heedOutput (c : Catalog) (output : Source) : Catalog :=
  let heeding := c.heedSource output
  match (Schema.ofSource c "output" output).bind Schema.envelope with
  | .ok envelope => heeding.heed (.record envelope)
  | .error _ => heeding

/-! ## The response to failures -/

/-- The schema of an object whose properties are described one by one. -/
def objectSchema (title description : String) (properties : Entries Json)
    (required : List String) : Json :=
  .obj [("description", .str description), ("properties", .obj properties),
    ("required", .strings required), ("title", .str title), ("type", .str "object")]

def textSchema (title description : String) : Json :=
  .obj [("description", .str description), ("title", .str title), ("type", .str "string")]

/-- The schema of the response to failures. -/
def errorEnvelopeSchema : Json :=
  let issue := objectSchema "ErrorIssue" "单条校验问题."
    [("message", textSchema "Message" "问题描述")] ["message"]
  let issues := Json.obj [("description", .str "校验问题列表(可选)"), ("items", issue),
    ("title", .str "Issues"), ("type", .str "array")]
  let detail := objectSchema "ErrorDetail" "错误详情."
    [("message", textSchema "Message" "可展示的错误摘要"), ("code", textSchema "Code" "错误码"),
      ("issues", issues)] ["message", "code"]
  let ok := Json.obj [("const", .bool false), ("description", .str "是否成功"),
    ("title", .str "Ok"), ("type", .str "boolean")]
  objectSchema "ErrorEnvelope" "错误封套." [("ok", ok), ("error", detail)] ["ok", "error"]

/-- The response to failures, which all operations share. -/
def sharedErrorResponse : Json :=
  .obj [("description", .str "Error response"), ("content", contentOf errorEnvelopeSchema)]

end Procedoc
