import Procedoc.Schema.Introspection
import Procedoc.Template
import Procedoc.Text.Case

/-! # Procedures

A procedure is an endpoint with a name, a method, a path and the schemas of its input and output.

* `Method` lists the methods that documents know; inputs of three of them travel in a body.
* `Proposal` is a procedure as it is written down: the method in any spelling, the path with any
  slashes around it.  `Proposal.accept` brings both into their one form or refuses the method.
-/

namespace Procedoc
set_option autoImplicit false

/-! ## Methods -/

/-- The methods that documents know. -/
inductive Method where
  | get
  | post
  | put
  | patch
  | delete
  deriving DecidableEq, Inhabited

namespace Method

def name : Method → String
  | get => "GET"
  | post => "POST"
  | put => "PUT"
  | patch => "PATCH"
  | delete => "DELETE"

/-- The key under which a document lists the operation of a method. -/
def key : Method → String
  | get => "get"
  | post => "post"
  | put => "put"
  | patch => "patch"
  | delete => "delete"

def all : List Method := [get, post, put, patch, delete]

/-- The method that a text names, in capitals or not. -/
def ofText? (text : String) : Option Method := all.find? fun m => m.name = Text.upper text

/-- Whether inputs travel in a body. -/
def hasBody : Method → Bool
  | post | put | patch => true
  | get | delete => false

end Method

/-! ## Procedures -/

/-- An endpoint with its schemas and its documentation. -/
structure Procedure where
  name : String
  method : Method
  /-- The path template, in its one spelling. -/
  path : String
  input : Option Source := none
  output : Source := .type .none
  summary : Option String := none
  description : Option String := none
  tags : List String := []
  deprecated : Bool := false
  deriving Inhabited

/-- A procedure as it is written down. -/
structure Proposal where
  name : String
  method : String
  path : String
  input : Option Source := none
  output : Source := .type .none
  summary : Option String := none
  description : Option String := none
  tags : List String := []
  deprecated : Bool := false
  deriving Inhabited

/-- The procedure that is meant, if its method is known. -/
def Proposal.accept (p : Proposal) : Except Violation Procedure :=
  match Method.ofText? (Text.strip p.method) with
  | none => .error (.unsupportedMethod p.method)
  | some method => .ok
    { name := p.name
      method
      path := Template.normalize p.path
      input := p.input
      output := p.output
      summary := p.summary
      description := p.description
      tags := p.tags
      deprecated := p.deprecated }

/-- The procedure as it would be written down. -/
def Procedure.proposal (p : Procedure) : Proposal where
  name := p.name
  method := p.method.name
  path := p.path
  input := p.input
  output := p.output
  summary := p.summary
  description := p.description
  tags := p.tags
  deprecated := p.deprecated

end Procedoc
