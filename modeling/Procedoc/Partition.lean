import Procedoc.Schema
import Procedoc.Template
import Procedoc.Trace

/-! # Splitting an input

A template splits the fields of an object: those it names go into the path, in the order in which it
names them, the others remain with the object.
-/

namespace Procedoc
set_option autoImplicit false

/-- An input, split along a template. -/
structure Partition where
  /-- The fields that the template names. -/
  path : Schema
  /-- The object without these fields. -/
  rest : Schema
  deriving Inhabited

/-- The name of the object of path fields. -/
def pathName (name : Option String) : Option String :=
  match name with
  | some n => if n.isEmpty then none else some (n ++ "PathParams")
  | none => none

/-- The named fields, in the order in which the names come first. -/
def pickFields (fields : Entries Schema) (names : List String) : Entries Schema :=
  Entries.ofList (names.filterMap fun n => (Entries.get? fields n).map fun s => (n, s))

def Schema.partition (s : Schema) (template : String) : Except Violation Partition :=
  match s with
  | .object head fields _ => do
    let names ← Template.placeholdersIn (Entries.keys fields) template
    let rest ← s.without names
    return ⟨.ofFields { name := pathName head.name } (pickFields fields names), rest⟩
  | s => .error (.objectKindRequired "input" s.kind.name)

/-- Splits an object along a template and reports the two lists of keys. -/
def Schema.partitioned (s : Schema) (template : String) : Traced Partition :=
  match s.partition template with
  | .ok p => ⟨[.partitioned template p.path.keys p.rest.keys], .ok p⟩
  | .error v => Traced.refuse v

end Procedoc
