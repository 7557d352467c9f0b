import Procedoc.Partition
import Procedoc.Rendering

/-! # Parameters

A parameter carries one field of an input in the path or in the query.  Only texts can be carried
there; whether a value has to be given is asked of the field with its wrappers, and the schema is
that of the field with its wrappers.
-/

namespace Procedoc
set_option autoImplicit false

/-- Where a parameter stands. -/
inductive Location where
  | path
  | query
  deriving DecidableEq, Inhabited

def Location.name : Location → String
  | path => "path"
  | query => "query"

/-- How parameters of a location are written. -/
def Location.style : Location → String
  | path => "simple"
  | query => "form"

structure Parameter where
  name : String
  location : Location
  required : Bool
  schema : Json

/-- The description of a parameter: that of its schema. -/
def Parameter.description? (p : Parameter) : Option Json :=
  (p.schema.get? "description").filter Json.saysSomething

def Parameter.toJson (p : Parameter) : Json :=
  .obj ([("name", .str p.name), ("in", .str p.location.name), ("required", .bool p.required),
    ("schema", p.schema), ("style", .str p.location.style), ("explode", .bool true)]
    ++ (p.description?.map fun d => ("description", d)).toList)

def Schema.parameter (c : Catalog) (location : Location) (name : String) (s : Schema) :
    Traced Parameter := do
  if s.base.kind = .string then
    let schema ← s.render c .input
    return { name, location, required := !s.isOptional, schema }
  else Traced.refuse (.stringFieldRequired name location.name s.base.kind.name)

/-- The parameters that carry fields, in order. -/
def parametersOf (c : Catalog) (location : Location) : Entries Schema → Traced (List Parameter)
  | [] => pure []
  | (key, s) :: rest => do
    let p ← s.parameter c location key
    return p :: (← parametersOf c location rest)

def Schema.parameters (c : Catalog) (location : Location) (s : Schema) :
    Traced (List Parameter) :=
  match s with
  | .object _ fields _ => parametersOf c location fields
  | s => Traced.refuse (.objectKindRequired (location.name ++ " parameters") s.kind.name)

/-- What a source means as an input. -/
def Source.asInput (c : Catalog) (s : Source) : Traced Schema :=
  Traced.ofExcept (Schema.ofSource c "input" s)

/-- The parameters of an input that has no body: those in the path, then those in the query. -/
def Source.allParameters (c : Catalog) (input : Source) (template : String) :
    Traced (List Parameter) := do
  let parts ← (← input.asInput c).partitioned template
  let path ← parts.path.parameters c .path
  let query ← parts.rest.parameters c .query
  return path ++ query

end Procedoc
