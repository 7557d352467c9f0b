import Procedoc.Operation

/-! # Documents

A document lists the operations of procedures under their paths and methods.

* `Document.build` goes through the procedures in order.  It stops at the first that shares method
  and path with an earlier one or cannot be documented; when all are documented it reports that.
* `Document.toJson` is the document as it is published.
-/

namespace Procedoc
set_option autoImplicit false

/-- What a document says about itself. -/
structure About where
  title : String
  version : String
  baseUrl : String
  description : Option String := none
  docsUrl : Option String := none
  tags : List String := []
  deriving Inhabited

/-- The operations of one path, under the keys of their methods. -/
abbrev PathItem := Entries Operation

structure Document where
  about : About
  paths : Entries PathItem

namespace Document

def formatVersion : String := "3.1.0"

def toJson (d : Document) : Json :=
  .obj (
    [("openapi", .str formatVersion),
      ("info", .obj ([("title", .str d.about.title), ("version", .str d.about.version)]
        ++ textEntry "description" d.about.description)),
      ("servers", .arr [.obj [("url", .str d.about.baseUrl)]]),
      ("paths", .obj (Entries.mapValues (fun item => .obj (Entries.mapValues Operation.toJson item))
        d.paths)),
      ("components", .obj [("responses", .obj [("error", sharedErrorResponse)])])]
      ++ (if d.about.tags.isEmpty then []
        else [("tags", .arr (d.about.tags.map fun t => .obj [("name", .str t)]))])
      ++ (textEntry "url" d.about.docsUrl |>.map fun e => ("externalDocs", .obj [e])))

/-- The paths in order, each with the keys of its methods in order. -/
def order (d : Document) : List (String × List String) :=
  d.paths.map fun (path, item) => (path, Entries.keys item)

/-- Writes an operation under its path and method. -/
def putOperation (paths : Entries PathItem) (p : Procedure) (o : Operation) : Entries PathItem :=
  Entries.put paths p.path
    (Entries.put ((Entries.get? paths p.path).getD []) p.method.key o)

/-- The first of the procedures with the method and path of one. -/
def holderOf? (before : List Procedure) (p : Procedure) : Option Procedure :=
  before.find? fun q => q.method = p.method && q.path = p.path

/-- Goes through procedures, those in `before` being documented under `paths`. -/
def gather (c : Catalog) (before : List Procedure) (paths : Entries PathItem) :
    List Procedure → Traced (Entries PathItem)
  | [] => pure paths
  | p :: rest => do
    match holderOf? before p with
    | some q => Traced.refuse (.duplicateOperation p.method.name p.path [q.name, p.name])
    | none =>
      let o ← p.operation c
      gather (p.heed c) (before ++ [p]) (putOperation paths p o) rest

def build (c : Catalog) (about : About) (procedures : List Procedure) : Traced Document := do
  let paths ← gather c [] [] procedures
  Traced.report (.documentComplete procedures.length paths.length)
  return { about, paths }

end Document
end Procedoc
