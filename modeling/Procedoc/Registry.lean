import Procedoc.Procedure

/-! # Registries

A registry holds procedures in the order in which they were registered, no two under one name.

* `Registry.register` adds a procedure, or refuses a name that is taken.
* `Registry.route` registers the procedure that a handler serves; the handler lends its name and its
  documentation where the proposal has none.
* `Registry.step` and `Registry.run` follow a list of such steps; a step that fails changes nothing.
-/

namespace Procedoc
set_option autoImplicit false

/-- What serves a procedure: a function with a name and perhaps documentation. -/
structure Handler where
  name : String
  doc : Option String := none
  deriving Inhabited

/-- Procedures in order of registration. -/
structure Registry where
  procedures : List Procedure := []
  deriving Inhabited

namespace Registry

def empty : Registry := {}

def size (r : Registry) : Nat := r.procedures.length

def names (r : Registry) : List String := r.procedures.map Procedure.name

/-- Adds a procedure whose name is free. -/
def register (r : Registry) (p : Procedure) : Except Violation Registry :=
  if r.names.contains p.name then .error (.duplicateProcedure p.name)
  else .ok { procedures := r.procedures ++ [p] }

end Registry

/-- A text, unless it is empty. -/
def nonEmpty? (s : String) : Option String := if s.isEmpty then none else some s

/-- The description that a handler lends: its documentation without blanks around it. -/
def Handler.description? (h : Handler) : Option String :=
  nonEmpty? (Text.strip (h.doc.getD ""))

/-- The proposal with name and description of the handler where it has none. -/
def Proposal.servedBy (p : Proposal) (h : Handler) : Proposal := { p with
  name := if p.name.isEmpty then h.name else p.name
  description := (p.description.bind nonEmpty?).or h.description? }

namespace Registry

def propose (r : Registry) (p : Proposal) : Except Violation Registry := do
  r.register (← p.accept)

/-- Registers the procedure that a handler serves. -/
def route (r : Registry) (p : Proposal) (h : Handler) : Except Violation Registry :=
  r.propose (p.servedBy h)

/-- One step: a proposal, with or without a handler. -/
inductive Step where
  | register (p : Proposal)
  | route (p : Proposal) (h : Handler)
  deriving Inhabited

def Step.proposal : Step → Proposal
  | register p => p
  | route p h => p.servedBy h

/-- The registry after a step; where the step fails, as it was. -/
def step (r : Registry) (s : Step) : Registry :=
  match r.propose s.proposal with
  | .ok r' => r'
  | .error _ => r

def run (r : Registry) (steps : List Step) : Registry := steps.foldl step r

@[simp] theorem run_nil (r : Registry) : r.run [] = r := rfl

@[simp] theorem run_cons (r : Registry) (s : Step) (rest : List Step) :
    r.run (s :: rest) = (r.step s).run rest := by simp only [run, List.foldl_cons]

end Registry
end Procedoc
