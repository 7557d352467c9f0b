import Procedoc.Settings

/-! # Logging

The settings in force decide which events are logged, and how.

* `Logging` is the state of the log: the settings in force, whether the log is configured, and the
  output that was set up then.
* `Logging.Work.configure` puts settings in force, without settings once, those that it loads.
  `Logging.Work.getLogger` does the latter before it gives out a logger.
* `Logging.run` goes through calls of either kind, each in an environment of its own.
* `Logging.context` writes the name of the application over an event, and `Logging.emit` gives the
  line that is logged for one.
-/

namespace Procedoc
set_option autoImplicit false

/-- How lines are written. -/
inductive Renderer where
  | json
  | console
  deriving DecidableEq, Inhabited

def Renderer.name : Renderer → String
  | json => "JSONRenderer"
  | console => "ConsoleRenderer"

/-- The renderer that settings choose. -/
def Settings.renderer (s : Settings) : Renderer := if s.logJson then .json else .console

/-- The words that an event may be logged with, each with its level. -/
def logWords : List (String × LogLevel) :=
  [("debug", .debug), ("info", .info), ("warning", .warning), ("warn", .warning), ("error", .error),
    ("exception", .error), ("critical", .critical), ("fatal", .critical)]

/-- The level that a word logs an event at. -/
def LogLevel.ofWord? (word : String) : Option LogLevel := Entries.get? logWords word

/-- What lines go through: from which level on events are logged, and how lines are written. -/
structure Output where
  level : LogLevel
  renderer : Renderer
  deriving DecidableEq, Inhabited

/-- The output that settings ask for. -/
def Settings.output (s : Settings) : Output := { level := s.logLevel, renderer := s.renderer }

structure Logging where
  /-- The settings in force. -/
  settings : Option Settings := none
  isConfigured : Bool := false
  /-- The output that is set up. -/
  output : Option Output := none
  deriving DecidableEq, Inhabited

/-- A line that is logged: the event is shown where lines are objects. -/
structure Line where
  level : LogLevel
  logger : String
  event : Option Json

namespace Logging

def fresh : Logging := {}

/-- Work on the log, which may come upon settings that are wrong; what was done by then stays done. -/
abbrev Work (α : Type) := ExceptT (List Issue) (StateM Logging) α

namespace Work

/-- Puts settings in force: the given ones, or else, unless the log is configured, those loaded from
an environment. -/
def configure (given : Option Settings) (env : Environment) : Work Unit := do
  let l ← get
  if l.isConfigured && given.isNone then return
  let s ← match given.or l.settings with
    | some s => pure s
    | none => loaded (Settings.load env [])
  modify fun l => { l with settings := some s }
  modify fun l => { l with output := some s.output }
  modify fun l => { l with isConfigured := true }
where
  /-- Settings that were loaded. -/
  loaded : Except (List Issue) Settings → Work Settings
    | .ok s => return s
    | .error issues => throw issues

/-- The name of a logger, given out after the log was configured without settings. -/
def getLogger (name : String) (env : Environment) : Work String := do
  configure none env
  return name

end Work

/-- The log after it was asked to be configured, unless that fails. -/
def configure (l : Logging) (given : Option Settings) (env : Environment) :
    Except (List Issue) Logging :=
  let (outcome, l') := (Work.configure given env).run l
  outcome.map fun _ => l'

/-- What may be asked of the log. -/
inductive Request where
  | configure (given : Option Settings)
  | getLogger (name : String)

/-- A request, in the environment that there is at the time. -/
structure Call where
  request : Request
  env : Environment

def Call.work (call : Call) : Work Unit :=
  match call.request with
  | .configure given => Work.configure given call.env
  | .getLogger name => do
    let _ ← Work.getLogger name call.env

def outcome (l : Logging) (call : Call) : Except (List Issue) Unit := (call.work.run l).1

/-- The log after a call, also after one that fails. -/
def step (l : Logging) (call : Call) : Logging := (call.work.run l).2

def run (l : Logging) (calls : List Call) : Logging := calls.foldl step l

@[simp] theorem run_nil (l : Logging) : l.run [] = l := rfl

@[simp] theorem run_cons (l : Logging) (call : Call) (rest : List Call) :
    l.run (call :: rest) = (l.step call).run rest := by simp only [run, List.foldl_cons]

/-- The event with the name, the version and, where it is known, the environment of the
application. -/
def context (l : Logging) (event : Entries Json) : Entries Json :=
  let defaults : Settings := {}
  let s := l.settings.getD defaults
  let named := Entries.put (Entries.put event "app_name" (.str s.appName)) "app_version"
    (.str s.appVersion)
  match l.settings with
  | some s => Entries.put named "environment" (.str s.environment)
  | none => named

/-- Names that no field of an event may have: they are those of the parts of a call. -/
def takenNames : List String := ["self", "method_name", "event"]

/-- Names of fields that steer how a line is made and are not written. -/
def unwrittenNames : List String := ["exc_info", "stack_info", "timestamp"]

/-- The lines that are logged for an event; there is no answer where a field has a name that none may
have.  An event that is null is not written. -/
def emit (l : Logging) (logger : String) (level : LogLevel) (event : Json)
    (fields : Entries Json) : Option (List Line) :=
  if fields.any fun p => takenNames.contains p.1 then none
  else
    match l.output with
    | none => some []
    | some o =>
      if level.weight < o.level.weight then some []
      else
        let name := if logger.isEmpty then "root" else logger
        let levelName := level.name.map Char.toLower
        let written := Entries.withoutAll fields unwrittenNames
        let told := if event = .null then written else Entries.put written "event" event
        let full := Entries.override told
          [("level", .str levelName), ("logger", .str name)]
        some [{ level
                logger := name
                event := match o.renderer with
                  | .json => some (.obj (l.context full))
                  | .console => none }]

end Logging
end Procedoc
