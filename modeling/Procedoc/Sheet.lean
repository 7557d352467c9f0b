import Procedoc.Config
import Procedoc.Shape

/-! # Sheets

A `Sheet` holds the definitions that are written while a schema is, each under a label of its own.

* `Text.labelled` and `candidates` are the names that a definition may go by: its label is the last
  of them, which no other definition has.
* `Sheet.label` gives a key its label, `Sheet.target?` follows a reference to a definition.

Work on a sheet may meet an `Obstacle`; what was written by then stays written.
-/

namespace Procedoc
set_option autoImplicit false

/-- Why a type has no schema. -/
inductive Obstacle where
  /-- Nothing describes the type. -/
  | indescribable
  /-- An entry that was written by hand refers to something that is no address on the web. -/
  | looseReference
  /-- A reference that was written by hand is a list or an object. -/
  | unhashable
  /-- A reference that was written by hand is no text. -/
  | unreadable
  /-- A default or a literal holds octets that are no text. -/
  | undecodable
  /-- A literal has no form as data. -/
  | unserializable
  /-- What a model writes over its schema is no object. -/
  | unfitSetting
  deriving DecidableEq

/-! ## References -/

/-- How a reference to a definition begins. -/
def definitionMark : String := "#/$defs/"

def definitionRef (name : String) : String := definitionMark ++ name

/-- The name of the definition that a reference asks for, if it asks for one. -/
def definitionName? (ref : String) : Option String :=
  if definitionMark.toList.isPrefixOf ref.toList then
    some (String.ofList (ref.toList.drop definitionMark.toList.length))
  else none

@[simp] theorem definitionName?_definitionRef (name : String) :
    definitionName? (definitionRef name) = some name := by
  simp [definitionName?, definitionRef]

theorem definitionRef_inj {name name' : String} :
    definitionRef name = definitionRef name' ↔ name = name' :=
  ⟨fun h => by simpa using congrArg definitionName? h, congrArg definitionRef⟩

def referenceTo (name : String) : Entries Json := [("$ref", .str (definitionRef name))]

def isWebAddress (ref : String) : Bool := ref.startsWith "http://" || ref.startsWith "https://"

/-! ## Names of definitions -/

/-- Whether a character may stand in the name of a definition. -/
def Text.isLabelChar (c : Char) : Bool :=
  isCapital c || isSmall c || isDigit c || c = '-' || c = '_'

/-- A name with a dash at the bottom for each character that may not stand in the name of a
definition, and two for each point. -/
def Text.labelled (name : String) : String :=
  String.ofList (name.toList.flatMap fun c =>
    if c = '.' then ['_', '_'] else if isLabelChar c then [c] else ['_'])

def Text.lastPart (name : String) : String :=
  String.ofList (name.toList.reverse.takeWhile (· ≠ '.')).reverse

namespace Owner

def place : Owner → String
  | model _ | enumeration _ => "oracle"
  | made _ _ => "rpc_openapi.schemas.json_schema"

/-- The short name of the definition. -/
def shortName (o : Owner) : String := Text.labelled (Text.lastPart o.name)

/-- The name of the definition with the place where its owner stands. -/
def fullName (o : Owner) : String := Text.labelled (o.place ++ "." ++ o.name)

end Owner

/-- The word for a side in the name of a definition. -/
def Side.word : Side → String
  | input => "Input"
  | output => "Output"

/-- The names that a definition may go by, the simplest first.  The number tells it from others of
its full name. -/
def candidates (o : Owner) (side : Side) (number : Nat) : List String :=
  let short := o.shortName
  let full := o.fullName
  [short, short ++ "-" ++ side.word, full, full ++ "-" ++ side.word,
    full ++ "__" ++ toString number, full ++ "-" ++ side.word ++ "__" ++ toString number]

/-! ## Sheets -/

structure Sheet where
  /-- The numbers of the keys, among those of a full name. -/
  numbers : List (Key × Nat) := []
  /-- The labels of the keys that were mentioned, for each side. -/
  labels : List ((Key × Side) × String) := []
  /-- The names that the definition with a label may go by. -/
  names : Entries (List String) := []
  /-- The definitions under their labels. -/
  definitions : Entries Json := []
  /-- The labels of definitions that nothing describes. -/
  broken : List String := []

/-- Work on a sheet. -/
abbrev Writing (α : Type) := ExceptT Obstacle (StateM Sheet) α

namespace Sheet

/-- The number of a key: one more than there are others of its full name. -/
def numberOf (s : Sheet) (key : Key) : Nat :=
  (s.numbers.lookup key).getD
    ((s.numbers.filter fun p => p.1.owner.fullName = key.owner.fullName).length + 1)

def withLabel (s : Sheet) (key : Key) (side : Side) : String × Sheet :=
  match s.labels.lookup (key, side) with
  | some label => (label, s)
  | none =>
    let number := s.numberOf key
    let names := candidates key.owner side number
    let label := names.getLastD ""
    (label, { s with
      numbers := if (s.numbers.lookup key).isSome then s.numbers else s.numbers ++ [(key, number)]
      labels := ((key, side), label) :: s.labels
      names := Entries.put s.names label names })

def define (s : Sheet) (label : String) (e : Entries Json) : Sheet := { s with
  definitions := Entries.put s.definitions label (.obj e)
  broken := s.broken.filter (· != label) }

/-- The definition that a reference leads to.  There is none yet for one that is still to be
written, and none at all for an address on the web. -/
def target? (s : Sheet) (ref : Json) : Except Obstacle (Option Json) :=
  match ref with
  | .str ref =>
    match (definitionName? ref).filter (Entries.has s.names) with
    | some label =>
      if s.broken.contains label then .error .indescribable
      else .ok (Entries.get? s.definitions label)
    | none => if isWebAddress ref then .ok none else .error .looseReference
  | .arr _ | .obj _ => .error .unhashable
  | _ => .error .unreadable

end Sheet

namespace Writing

def label (key : Key) (side : Side) : Writing String := modifyGet fun s => s.withLabel key side

def reference (key : Key) (side : Side) : Writing (Entries Json) := do
  return referenceTo (← label key side)

/-- Writes a definition and refers to it; one that is written already is not written again, nor one
that would only refer to itself. -/
def entity (key : Key) (side : Side) (body : Writing (Entries Json)) :
    Writing (Entries Json) := do
  let s ← get
  match (s.labels.lookup (key, side)).filter (Entries.has s.definitions) with
  | some written => return referenceTo written
  | none =>
    let e ← body
    let own ← label key side
    if Entries.get? e "$ref" != some (.str (definitionRef own)) then
      modify fun s => s.define own e
    return referenceTo own

/-- What comes out, unless nothing describes it. -/
def attempt {α : Type} (x : Writing α) : Writing (Option α) :=
  tryCatch (do return some (← x)) fun
    | .indescribable => pure none
    | o => throw o

/-- The entries beside a reference without those that only repeat what it leads to. -/
def withoutEchoes (e : Entries Json) : Writing (Entries Json) := do
  match Entries.get? e "$ref" with
  | none => return e
  | some ref =>
    match ← liftExcept ((← get).target? ref) with
    | none => return e
    | some target =>
      return e.filter fun (key, j) =>
        key = "$ref" || !(target.get? key).any (fun k => k.equal j)
where
  /-- The outcome of a computation that writes nothing. -/
  liftExcept {α : Type} : Except Obstacle α → Writing α
    | .ok a => return a
    | .error o => throw o

end Writing
end Procedoc
