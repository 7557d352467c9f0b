import Procedoc.Logging
import Procedoc.Registry
import Procedoc.Text.Address

/-! # The site of a document

A site publishes the document of some procedures: at its root it tells where the document is, and
beside it the document itself.

* `Site.create` loads the settings, configures the log with them, and makes the document; each of
  these can fail, and so does a name that is empty or has a dot.
* `Site.answer` answers a request.  Where a path leads nowhere but would with single slashes, or
  with a slash at its end, the answer is to ask again for that path.
-/

namespace Procedoc
set_option autoImplicit false

/-- A site. -/
structure Site where
  name : String
  settings : Settings
  document : Document

/-- Why there is no site. -/
inductive SiteRefusal where
  | settings (issues : List Issue)
  | document (f : Fault)
  | name

namespace Site

def isName (name : String) : Bool := !name.isEmpty && !name.toList.contains '.'

/-- The site of some procedures, under settings that were loaded. -/
def create (c : Catalog) (name : String) (settings : Except (List Issue) Settings)
    (procedures : List Procedure) : Except SiteRefusal Site :=
  match settings with
  | .error issues => .error (.settings issues)
  | .ok s =>
    match (Document.underSettings c s procedures).outcome with
    | .error f => .error (.document f)
    | .ok d => if isName name then .ok { name, settings := s, document := d } else .error .name

/-- An answer: its status, and its body where that is JSON. -/
structure Answer where
  status : Nat
  body : Option Json

/-- The path of a request, with one slash in front; an address may have none. -/
def pathOf (url : String) : String :=
  match Text.decoded (Text.pathPart (Text.pathPart url.toList)) with
  | [] => ""
  | cs => String.ofList ('/' :: cs.dropWhile (· = '/'))

/-- The path with one slash for every two in a row. -/
def mergeSlashes : List Char → List Char
  | '/' :: '/' :: rest => '/' :: mergeSlashes rest
  | c :: rest => c :: mergeSlashes rest
  | [] => []

/-- Where the pages of a site below a path stand: that path without slashes at its end, if it begins
with a slash or is empty. -/
def base? (under : String) : Option String :=
  let base := Text.trimEnd (· = '/') under
  if base.isEmpty then some ""
  else if base.startsWith "/" then some (String.ofList (mergeSlashes base.toList))
  else none

inductive Page where
  | root
  | document
  deriving DecidableEq

/-- The page at a path, where the paths of the site begin with `base`. -/
def page? (base path : String) : Option Page :=
  if path = base ++ "/" then some .root
  else if path = base ++ "/openapi.json" then some .document
  else none

/-- The methods that pages answer to. -/
def allowedMethods : List String := ["GET", "HEAD", "OPTIONS"]

/-- The page at the root: the title, the version, and where the document is. -/
def rootPage (s : Site) (path : String) : Json :=
  .obj [("title", .str s.document.about.title), ("version", .str s.document.about.version),
    ("openapi_url", .str (Text.trimEnd (· = '/') path ++ "/openapi.json"))]

def content (s : Site) (path : String) : Page → Json
  | .root => s.rootPage path
  | .document => s.document.toJson

/-- The answer of a site to a request, its pages standing at `base`. -/
def answer (s : Site) (base method url : String) : Answer :=
  let path := pathOf url
  let isAllowed := allowedMethods.contains (Text.upper method)
  match page? base path with
  | some p =>
    if !isAllowed then ⟨405, none⟩
    else ⟨200, if Text.upper method = "GET" then some (s.content path p) else none⟩
  | none =>
    let merged := String.ofList (mergeSlashes path.toList)
    if (page? base merged).isSome then ⟨if isAllowed then 308 else 405, none⟩
    else if isAllowed && (path = base || merged = base) then ⟨308, none⟩
    else ⟨404, none⟩

end Site
end Procedoc
