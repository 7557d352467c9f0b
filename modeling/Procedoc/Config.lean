import Procedoc.Json
import Procedoc.Text.Naming

/-! # Settings of a model

The `config` of a model is kept as it was written; the functions of the namespace `Config` read the
settings that documents depend on.  A setting that is not written has its usual value.
-/

namespace Procedoc
set_option autoImplicit false

/-- Which side a schema is for: what is read, or what is written. -/
inductive Side where
  | input
  | output
  deriving DecidableEq, Inhabited

/-- The form in which octets become data. -/
inductive OctetForm where
  | text
  | base64
  | hex
  deriving DecidableEq, Inhabited

/-- The form in which moments become data. -/
inductive MomentForm where
  | text
  | seconds
  | milliseconds
  deriving DecidableEq, Inhabited

/-- The forms of values that data has no form of its own for. -/
structure DataForm where
  octets : OctetForm := .text
  moments : MomentForm := .text
  deriving DecidableEq, Inhabited

/-- The settings of a model. -/
abbrev Config := Entries Json

namespace Config

def isOn (c : Config) (key : String) : Bool := Entries.get? c key == some (.bool true)

/-- A setting, unless it is null. -/
def given? (c : Config) (key : String) : Option Json :=
  (Entries.get? c key).filter fun j => j != .null

def text? (c : Config) (key : String) : Option String := (Entries.get? c key).bind Json.text?

/-- The title that the model goes by. -/
def title? (c : Config) : Option Json := given? c "title"

/-- Whether fields beyond the declared ones are let in or kept out, where that is said. -/
def letsInOthers? (c : Config) : Option Bool :=
  match text? c "extra" with
  | some "allow" => some true
  | some "forbid" => some false
  | _ => none

/-- What is written over the schema of the model. -/
def schemaEntries (c : Config) : Entries Json :=
  match Entries.get? c "json_schema_extra" with
  | some (.obj e) => e
  | _ => []

/-- Whether what is written over the schema of the model is an object, if anything. -/
def isWritable (c : Config) : Bool := (given? c "json_schema_extra").all Json.isObject

/-- The rule that gives a field its outside name. -/
def nameRule? (c : Config) : Option (String → String) :=
  match text? c "alias_generator" with
  | some "to_camel" => some Text.camel
  | some "to_pascal" => some Text.pascal
  | some "to_snake" => some Text.snake
  | _ => none

/-- The side that schemas of the model are for, whatever side is asked for. -/
def side? (c : Config) : Option Side :=
  match text? c "json_schema_mode_override" with
  | some "validation" => some .input
  | some "serialization" => some .output
  | _ => none

/-- Whether an output always has the fields that have a default. -/
def alwaysWritesDefaults (c : Config) : Bool := isOn c "json_schema_serialization_defaults_required"

def isOff (c : Config) (key : String) : Bool := Entries.get? c key == some (.bool false)

/-- Whether inputs give fields under their outside names; this is so unless it is ruled out. -/
def readsOutsideNames (c : Config) : Bool := !isOff c "validate_by_alias"

/-- Whether inputs can give fields under some name: it must not be ruled out that they give them
under their outside names and also that they give them under their own. -/
def readsNames (c : Config) : Bool := readsOutsideNames c || !isOff c "validate_by_name"

/-- Whether fields may have types of which nothing is known. -/
def allowsSealed (c : Config) : Bool := isOn c "arbitrary_types_allowed"

/-- The grammars of patterns. -/
inductive PatternGrammar where
  /-- That of patterns which are matched in linear time. -/
  | linear
  /-- A larger one of which nothing is known. -/
  | larger

/-- The grammar that patterns of the model keep to, if there is one. -/
def patternGrammar? (c : Config) : Option PatternGrammar :=
  match given? c "regex_engine" with
  | none | some (.str "rust-regex") => some .linear
  | some (.str "python-re") => some .larger
  | some _ => none

/-- The least length of every text in the model; zero says nothing. -/
def minLength? (c : Config) : Option Json :=
  (Entries.get? c "str_min_length").filter Json.saysSomething

/-- The greatest length of every text in the model. -/
def maxLength? (c : Config) : Option Json := given? c "str_max_length"

/-- The form that the values of the model have as data. -/
def dataForm (c : Config) : DataForm where
  octets := match text? c "ser_json_bytes" with
    | some "base64" => .base64
    | some "hex" => .hex
    | _ => .text
  moments := match text? c "ser_json_temporal" with
    | some "seconds" => .seconds
    | some "milliseconds" => .milliseconds
    | _ => .text

end Config
end Procedoc
