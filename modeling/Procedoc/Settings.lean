import Procedoc.Document
import Procedoc.Text.Case

/-! # Settings

What documents say about the whole service, and how the program logs.

* `Setting` lists the settings, each with its variable and its name.
* `Settings.load` reads them from an environment and from the entries of a file that fill in the
  variables the environment does not name; `Settings.make` lets given values go over the
  environment.
* `Issue` is what is wrong with one value.  All wrong values are told of at once, in the order of
  the settings.

Texts lose the white space around them; a base address also loses the slashes at its end, and a
description or address of documentation that is blank counts as none.
-/

namespace Procedoc
set_option autoImplicit false

/-! ## Log levels -/

/-- How much an event has to weigh to be logged. -/
inductive LogLevel where
  | debug
  | info
  | warning
  | error
  | critical
  deriving DecidableEq, Inhabited

namespace LogLevel

def name : LogLevel → String
  | debug => "DEBUG"
  | info => "INFO"
  | warning => "WARNING"
  | error => "ERROR"
  | critical => "CRITICAL"

def weight : LogLevel → Nat
  | debug => 10
  | info => 20
  | warning => 30
  | error => 40
  | critical => 50

def all : List LogLevel := [debug, info, warning, error, critical]

/-- The level that a text names, in capitals or not. -/
def ofText? (text : String) : Option LogLevel := all.find? fun l => l.name = Text.upper text

end LogLevel

/-! ## Values of settings -/

inductive Setting where
  | environment
  | appName
  | appVersion
  | baseUrl
  | description
  | docsUrl
  | logLevel
  | logJson
  deriving DecidableEq, Inhabited

def Setting.variable : Setting → String
  | environment => "RPC_OPENAPI_ENV"
  | appName => "APP_NAME"
  | appVersion => "APP_VERSION"
  | baseUrl => "OPENAPI_BASE_URL"
  | description => "OPENAPI_DESCRIPTION"
  | docsUrl => "OPENAPI_DOCS_URL"
  | logLevel => "LOG_LEVEL"
  | logJson => "LOG_JSON"

def Setting.name : Setting → String
  | environment => "environment"
  | appName => "app_name"
  | appVersion => "app_version"
  | baseUrl => "openapi_base_url"
  | description => "openapi_description"
  | docsUrl => "openapi_docs_url"
  | logLevel => "log_level"
  | logJson => "log_json"

/-- What is wrong with a value. -/
inductive Complaint where
  | notText
  | notTruth
  /-- It could be a truth value but is none. -/
  | unclearTruth
  /-- It names no log level. -/
  | unknownLevel (text : String)
  /-- It would change settings that are fixed. -/
  | fixed
  deriving DecidableEq

def Complaint.sort : Complaint → String
  | notText => "string_type"
  | notTruth => "bool_type"
  | unclearTruth => "bool_parsing"
  | unknownLevel _ => "value_error"
  | fixed => "frozen_instance"

def Complaint.message : Complaint → String
  | notText => "Input should be a valid string"
  | notTruth => "Input should be a valid boolean"
  | unclearTruth => "Input should be a valid boolean, unable to interpret input"
  | unknownLevel text => "Value error, LOG_LEVEL 无效: " ++ text
  | fixed => "Instance is frozen"

/-- A complaint with the place it is about. -/
structure Issue where
  place : String
  complaint : Complaint
  deriving DecidableEq

/-- A text without white space around it. -/
def readText (j : Json) : Except Complaint String :=
  match j with
  | .str s => .ok (Text.trim Text.isSpace s)
  | _ => .error .notText

/-- The address without slashes at its end; nothing but slashes is the root. -/
def withoutEndSlashes (url : String) : String :=
  let kept := Text.trimEnd (· = '/') url
  if kept.isEmpty then "/" else kept

def readBaseUrl (j : Json) : Except Complaint String := (readText j).map withoutEndSlashes

/-- A text that may be missing: null and blank texts count as none. -/
def readOptionalText (j : Json) : Except Complaint (Option String) :=
  match j with
  | .null => .ok none
  | .str s =>
    let kept := Text.strip s
    if kept.isEmpty then .ok none else (readText (.str kept)).map some
  | j => (readText j).map some

def readLogLevel (j : Json) : Except Complaint LogLevel := do
  let text ← readText j
  match LogLevel.ofText? text with
  | some l => return l
  | none => .error (.unknownLevel text)

/-- The texts that stand for yes. -/
def yesWords : List String := ["1", "on", "t", "true", "y", "yes"]

/-- The texts that stand for no. -/
def noWords : List String := ["0", "off", "f", "false", "n", "no"]

/-- Whether a number takes no more than eight octets. -/
def isShort (n : Int) : Bool := n ≤ 9223372036854775807 && -9223372036854775808 ≤ n

/-- A truth value: itself, one of the words for it, or the number 0 or 1.  Fractions and large
numbers are out of the question, as are numbers at the very end of the short ones where they are
written as fractions. -/
def readTruth (j : Json) : Except Complaint Bool :=
  let ofInt (n : Int) : Except Complaint Bool :=
    if n = 0 then .ok false else if n = 1 then .ok true else .error .unclearTruth
  match j with
  | .bool b => .ok b
  | .str s =>
    let word := s.map Char.toLower
    if yesWords.contains word then .ok true
    else if noWords.contains word then .ok false
    else .error .unclearTruth
  | .int n => if isShort n then ofInt n else .error .notTruth
  | .decimal x =>
    match x.whole? with
    | some n => if isShort n && isShort (n - 1) then ofInt n else .error .notTruth
    | none => .error .notTruth
  | _ => .error .notTruth

/-! ## Where values come from -/

/-- The variables of a process. -/
abbrev Environment := Entries String

/-- The environment with the variables of a file that it does not name. -/
def Environment.filledFrom (env : Environment) (file : Environment) : Environment :=
  env ++ file.filter fun p => !Entries.has env p.1

/-- The variables by small names; empty ones count as missing, and of several that differ in case
the last one counts. -/
def Environment.bySmallName (env : Environment) : Environment :=
  Entries.ofList ((env.filter fun p => !p.2.isEmpty).map fun p => (Text.lower p.1, p.2))

/-- The first of the given values whose name is that of a variable, in capitals or not. -/
def givenValue? (given : Entries Json) (name : String) : Option Json :=
  (given.find? fun p => Text.lower p.1 = Text.lower name).map Prod.snd

/-- The value of a setting: one given under its variable, or that of the variable. -/
def Setting.value? (given : Entries Json) (env : Environment) (s : Setting) : Option Json :=
  (givenValue? given s.variable).or ((Entries.get? env (Text.lower s.variable)).map .str)

/-! ## Settings -/

/-- What documents say about the service, and how the program logs. -/
structure Settings where
  environment : String := "development"
  appName : String := "rpc-openapi"
  appVersion : String := "1.0.0"
  baseUrl : String := "http://localhost:5000/api"
  description : Option String := none
  docsUrl : Option String := none
  logLevel : LogLevel := .info
  logJson : Bool := false
  deriving DecidableEq, Inhabited

namespace Settings

/-- A value that is read, or the complaint about it; a missing one is the default. -/
def readOr {α : Type} (fallback : α) (read : Json → Except Complaint α) (j : Option Json) :
    Except Complaint α :=
  match j with
  | some j => read j
  | none => .ok fallback

/-- The issue with a setting, if its value is wrong. -/
def issueOf {α : Type} (s : Setting) (x : Except Complaint α) : List Issue :=
  match x with
  | .ok _ => []
  | .error complaint => [⟨s.variable, complaint⟩]

/-- The settings that the given values make. -/
def ofValues (value? : Setting → Option Json) : Except (List Issue) Settings :=
  let defaults : Settings := {}
  let environment := readOr defaults.environment readText (value? .environment)
  let appName := readOr defaults.appName readText (value? .appName)
  let appVersion := readOr defaults.appVersion readText (value? .appVersion)
  let baseUrl := readOr defaults.baseUrl readBaseUrl (value? .baseUrl)
  let description := readOr defaults.description readOptionalText (value? .description)
  let docsUrl := readOr defaults.docsUrl readOptionalText (value? .docsUrl)
  let logLevel := readOr defaults.logLevel readLogLevel (value? .logLevel)
  let logJson := readOr defaults.logJson readTruth (value? .logJson)
  match environment, appName, appVersion, baseUrl, description, docsUrl, logLevel, logJson with
  | .ok environment, .ok appName, .ok appVersion, .ok baseUrl, .ok description, .ok docsUrl,
    .ok logLevel, .ok logJson => .ok
      { environment, appName, appVersion, baseUrl, description, docsUrl, logLevel, logJson }
  | _, _, _, _, _, _, _, _ => .error (
      issueOf .environment environment ++ issueOf .appName appName
        ++ issueOf .appVersion appVersion ++ issueOf .baseUrl baseUrl
        ++ issueOf .description description ++ issueOf .docsUrl docsUrl
        ++ issueOf .logLevel logLevel ++ issueOf .logJson logJson)

/-- The settings that values make which go over those of an environment. -/
def make (given : Entries Json) (env : Environment) : Except (List Issue) Settings :=
  ofValues (Setting.value? given env.bySmallName)

/-- The settings of an environment, a file filling in what it does not name. -/
def load (env : Environment) (file : Environment) : Except (List Issue) Settings :=
  make [] (env.filledFrom file)

/-- The issue with every attempt to change settings. -/
def assignIssue (place : String) : Issue := ⟨place, .fixed⟩

/-- Whether the service runs in production. -/
def isProduction (s : Settings) : Bool := Text.lower (Text.strip s.environment) = "production"

def optionalText (t : Option String) : Json := (t.map .str).getD .null

def entries (s : Settings) : Entries Json := [
  (Setting.environment.name, .str s.environment), (Setting.appName.name, .str s.appName),
  (Setting.appVersion.name, .str s.appVersion), (Setting.baseUrl.name, .str s.baseUrl),
  (Setting.description.name, optionalText s.description),
  (Setting.docsUrl.name, optionalText s.docsUrl),
  (Setting.logLevel.name, .str s.logLevel.name), (Setting.logJson.name, .bool s.logJson),
  ("is_production", .bool s.isProduction)]

/-- What a document under these settings says about itself. -/
def about (s : Settings) : About where
  title := s.appName
  version := s.appVersion
  baseUrl := s.baseUrl
  description := s.description
  docsUrl := s.docsUrl

end Settings

def Document.underSettings (c : Catalog) (s : Settings) (procedures : List Procedure) :
    Traced Document := Document.build c s.about procedures

end Procedoc
