import Procedoc.Fault
import Procedoc.Pairs

/-! # Reports on request

A report may be asked for with values of any kind, some given by position and some by name.

* `Signature.bind` gives every value its name, or finds that the values do not fit.
* `Family.reportOf` is the report of a failure described in general terms, of which everything may
  be said and nothing has to be; `Rule.reportOf` is that of a failure to keep a rule.
-/

namespace Procedoc
set_option autoImplicit false

structure Call where
  positional : List Json := []
  named : Entries Json := []

inductive CallRefusal where
  /-- Too many values, unknown names, a missing value, or one of a wrong kind. -/
  | misfit
  /-- A category or a severity is none. -/
  | unknownGrade
  /-- A list of details is not made of pairs. -/
  | unevenDetails
  deriving DecidableEq

/-! ## Names of values -/

/-- The values that may be given. -/
structure Signature where
  /-- By position or by name. -/
  places : List String
  /-- By name only. -/
  names : List String
  /-- Those without which nothing is missing. -/
  optional : List String

def Signature.bind (s : Signature) (call : Call) : Except CallRefusal (Entries Json) :=
  let placed := s.places.zip call.positional
  let fits := call.positional.length ≤ s.places.length
    && call.named.all (fun p => (s.places ++ s.names).contains p.1 && !Entries.has placed p.1)
  let given := placed ++ call.named
  if fits && (s.places ++ s.names).all fun n => Entries.has given n || s.optional.contains n then
    .ok given
  else .error .misfit

/-! ## Grades -/

/-- A grade given by its name. -/
def gradeOf {α : Type} (ofName? : String → Option α) (given : Entries Json) (key : String) :
    Except CallRefusal (Option α) :=
  match Entries.get? given key with
  | none => .ok none
  | some j =>
    match j.text?.bind ofName? with
    | some a => .ok (some a)
    | none => .error .unknownGrade

/-- The category and the severity that are given by name. -/
def gradesOf (given : Entries Json) : Except CallRefusal (Option Category × Option Severity) := do
  let severity ← gradeOf Severity.ofName? given "severity"
  return (← gradeOf Category.ofName? given "category", severity)

/-! ## Reports -/

/-- A value that says something, or else the second. -/
def sayingOr (given : Option Json) (fallback : Json) : Json :=
  match given with
  | some j => if j.saysSomething then j else fallback
  | none => fallback

/-- The details that a value holds. -/
def detailsOf (given : Option Json) : Except CallRefusal (Entries Json) :=
  match given with
  | none => .ok []
  | some j =>
    if j.saysSomething then
      match j.pairedEntries with
      | .ok e => .ok e
      | .error .uneven => .error .unevenDetails
      | .error .unreadable => .error .misfit
    else .ok []

/-- The message that stands for a key. -/
def messageFor (key : Json) : Except CallRefusal Json :=
  match key with
  | .str k => .ok (.str (unfilled (wordingOf k)))
  | _ => .error .misfit

/-- What may be said of a failure in general terms. -/
def Family.signature : Signature where
  places := ["message"]
  names := ["message_key", "extra", "severity", "category"]
  optional := ["message", "message_key", "extra", "severity", "category"]

/-- The report of a failure that is described in general terms. -/
def Family.reportOf (f : Family) (call : Call) : Except CallRefusal Report := do
  let (category, severity) ← gradesOf call.named
  let given ← Family.signature.bind call
  let key := sayingOr (Entries.get? given "message_key") (.str f.messageKey)
  let message ← match (Entries.get? given "message").filter Json.saysSomething with
    | some j => pure j
    | none => messageFor key
  let extra ← detailsOf (Entries.get? given "extra")
  return {
    message
    messageKey := key
    category := category.getD f.category
    severity := severity.getD .high
    extra }

namespace Rule

/-- What has to be said of a failure to keep a rule. -/
def signature : Rule → Signature
  | schemaGiven => ⟨["role"], ["value"], ["value"]⟩
  | objectKind => ⟨["role"], ["kind"], []⟩
  | stringField => ⟨["field"], ["location", "kind"], []⟩
  | namedSegment => ⟨["path"], [], []⟩
  | knownPathField => ⟨["field"], ["path"], []⟩
  | oneOperation => ⟨["method", "path"], ["procedures"], []⟩
  | oneName => ⟨["name"], [], []⟩
  | knownMethod => ⟨["method"], [], []⟩

/-- A detail of a report, made from a value: of what was given in the place of a schema its sort is
told, and of procedures the list. -/
def detail (key : String) (j : Json) : Except CallRefusal (String × Json) :=
  if key = "value" then .ok ("received", .str j.sortName)
  else if key = "name" then .ok ("procedure", j)
  else if key = "procedures" then
    match j.members? with
    | some js => .ok (key, .arr js)
    | none => .error .misfit
  else .ok (key, j)

/-- The report of a failure to keep a rule. -/
def reportOf (r : Rule) (call : Call) : Except CallRefusal Report := do
  let _ ← gradesOf call.named
  let given ← r.signature.bind call
  let whole := if r = .schemaGiven && !Entries.has given "value" then
      Entries.put given "value" .null
    else given
  return r.report (← whole.mapM fun p => detail p.1 p.2)

end Rule
end Procedoc
