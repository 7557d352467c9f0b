import Procedoc.Spelling

/-! # What can go wrong

* `Rule` lists the rules that inputs and routes have to keep, and a `Violation` breaks one of them.
* `Report` is what is told of a failure: a message, the key of that message, a category, a severity
  and details.  `Rule.report` gives the report of details under a rule, and `Violation.report` that
  of a violation.
* `Fault` is any reason for which a computation stops: a violation, or a value that no schema can be
  made from.

All wording stands in `wordings`; a wording is a list of pieces, some of them places to fill in.
-/

namespace Procedoc
set_option autoImplicit false

/-! ## Wordings -/

/-- A piece of a message: fixed text, or a place for a named value. -/
inductive Piece where
  | text (s : String)
  | place (name : String)
  deriving DecidableEq

/-- The message for each key.  The last four keys tell of the table itself. -/
def wordings : Entries (List Piece) := [
  ("INTERNAL_ERROR", [.text "服务器内部错误"]),
  ("SCHEMA_CONTRACT_VIOLATION", [.text "schema 不满足文档生成契约"]),
  ("NOT_A_SCHEMA", [.place "role", .text " 需要 pydantic 模型或类型注解"]),
  ("OBJECT_KIND_REQUIRED", [.place "role", .text " 需要对象类型的 schema"]),
  ("STRING_FIELD_REQUIRED", [.place "location", .text " 参数只支持字符串字段: ", .place "field"]),
  ("MALFORMED_SEGMENT", [.text "路径模板中存在无效的动态片段: ", .place "path"]),
  ("UNKNOWN_PATH_FIELD", [.text "路径模板中的动态片段没有对应的输入字段: ", .place "field"]),
  ("DUPLICATE_OPERATION",
    [.text "同一路由重复定义了过程: ", .place "method", .text " ", .place "path"]),
  ("DUPLICATE_PROCEDURE", [.text "过程名称重复: ", .place "name"]),
  ("UNSUPPORTED_METHOD", [.text "不支持的 HTTP 方法: ", .place "method"]),
  ("__name__", [.text "ErrorMessages"]),
  ("__qualname__", [.text "ErrorMessages"]),
  ("__module__", [.text "rpc_openapi.constants.system_constants"]),
  ("__doc__", [.text "错误消息常量.\n\n    带 ``", .place "name",
    .text "`` 占位符的文案由异常构造时通过 ``extra`` 填充.\n    "])]

/-- The message that stands for every key without one. -/
def fallbackWording : List Piece := [.text "服务器内部错误"]

def wordingOf (key : String) : List Piece := (Entries.get? wordings key).getD fallbackWording

/-- A wording with its places named in braces. -/
def unfilled (pieces : List Piece) : String :=
  String.join (pieces.map fun
    | .text s => s
    | .place name => "\x7b" ++ name ++ "\x7d")

def filled (values : Entries Json) (pieces : List Piece) : String :=
  String.join (pieces.map fun
    | .text s => s
    | .place name => ((Entries.get? values name).map Json.inText).getD "")

/-! ## Reports -/

/-- Which part of the work a failure belongs to. -/
inductive Category where
  | schema
  | routing
  | system
  deriving DecidableEq, Inhabited

/-- How much a failure weighs. -/
inductive Severity where
  | low
  | medium
  | high
  | critical
  deriving DecidableEq, Inhabited

def Category.name : Category → String
  | schema => "schema"
  | routing => "routing"
  | system => "system"

def Severity.name : Severity → String
  | low => "low"
  | medium => "medium"
  | high => "high"
  | critical => "critical"

def Category.ofName? (name : String) : Option Category :=
  [schema, routing, system].find? fun c => c.name = name

def Severity.ofName? (name : String) : Option Severity :=
  [low, medium, high, critical].find? fun s => s.name = name

/-- What is told of a failure. -/
structure Report where
  message : Json
  messageKey : Json
  category : Category
  severity : Severity
  extra : Entries Json

/-- Whether work may go on after the failure. -/
def Report.recoverable (r : Report) : Bool := r.severity = .low || r.severity = .medium

/-- The report as an object; details go over the four fields that every report has. -/
def Report.entries (r : Report) : Entries Json :=
  Entries.override
    [("message", r.message), ("message_key", r.messageKey),
      ("category", .str r.category.name), ("severity", .str r.severity.name)]
    r.extra

/-- The report with one more detail, unless it already has one of that name. -/
def Report.addDetail (r : Report) (key : String) (value : Json) : Report :=
  if Entries.has r.extra key then r else { r with extra := Entries.put r.extra key value }

/-- The three families that failures belong to. -/
inductive Family where
  | general
  | contract
  | routing
  deriving DecidableEq, Inhabited

def Family.category : Family → Category
  | general => .system
  | contract => .schema
  | routing => .routing

/-- The key of the message that a family uses unless another is chosen. -/
def Family.messageKey : Family → String
  | contract => "SCHEMA_CONTRACT_VIOLATION"
  | general | routing => "INTERNAL_ERROR"

/-- The first text that is present and not empty, or else the second. -/
def orIfEmpty (given : Option String) (fallback : String) : String :=
  match given with
  | some s => if s.isEmpty then fallback else s
  | none => fallback

/-! ## Rules and violations -/

/-- The rules that inputs, outputs and routes have to keep. -/
inductive Rule where
  /-- A schema is asked for, and one has to be given that can be written. -/
  | schemaGiven
  /-- A schema has to be an object. -/
  | objectKind
  /-- A field that goes into a parameter has to be a string. -/
  | stringField
  /-- A placeholder of a template has a name. -/
  | namedSegment
  /-- A template names fields of the input only. -/
  | knownPathField
  /-- No two procedures share a method and a path. -/
  | oneOperation
  /-- No two procedures share a name. -/
  | oneName
  /-- The method of a procedure is one that documents know. -/
  | knownMethod
  deriving DecidableEq, Inhabited

namespace Rule

def family : Rule → Family
  | schemaGiven | objectKind | stringField | namedSegment | knownPathField => .contract
  | oneOperation | oneName | knownMethod => .routing

def messageKey : Rule → String
  | schemaGiven => "NOT_A_SCHEMA"
  | objectKind => "OBJECT_KIND_REQUIRED"
  | stringField => "STRING_FIELD_REQUIRED"
  | namedSegment => "MALFORMED_SEGMENT"
  | knownPathField => "UNKNOWN_PATH_FIELD"
  | oneOperation => "DUPLICATE_OPERATION"
  | oneName => "DUPLICATE_PROCEDURE"
  | knownMethod => "UNSUPPORTED_METHOD"

/-- What the message is filled with: the details, of which one goes by another name there. -/
def values (details : Entries Json) : Entries Json :=
  details.map fun (key, j) => (if key = "procedure" then "name" else key, j)

/-- What is told of a failure to keep a rule. -/
def report (r : Rule) (details : Entries Json) : Report :=
  { message := .str (filled (values details) (wordingOf r.messageKey))
    messageKey := .str r.messageKey
    category := r.family.category
    severity := .high
    extra := details }

end Rule

/-- A rule that an input, an output or a route breaks. -/
inductive Violation where
  /-- Something that has to be a schema is none, or no schema can be written for it. -/
  | notASchema (role received : String)
  /-- A schema has to be an object and is of another kind. -/
  | objectKindRequired (role kind : String)
  /-- A field goes into a parameter and is no string. -/
  | stringFieldRequired (field location kind : String)
  /-- A template has a placeholder without a name. -/
  | malformedSegment (path : String)
  /-- A template names a field that the input does not have. -/
  | unknownPathField (field path : String)
  /-- Two procedures share a method and a path. -/
  | duplicateOperation (method path : String) (procedures : List String)
  /-- Two procedures share a name. -/
  | duplicateProcedure (name : String)
  /-- A procedure names a method that documents do not know. -/
  | unsupportedMethod (method : String)
  deriving DecidableEq

namespace Violation

def rule : Violation → Rule
  | notASchema .. => .schemaGiven
  | objectKindRequired .. => .objectKind
  | stringFieldRequired .. => .stringField
  | malformedSegment .. => .namedSegment
  | unknownPathField .. => .knownPathField
  | duplicateOperation .. => .oneOperation
  | duplicateProcedure .. => .oneName
  | unsupportedMethod .. => .knownMethod

def details : Violation → Entries Json
  | notASchema role received => [("role", .str role), ("received", .str received)]
  | objectKindRequired role kind => [("role", .str role), ("kind", .str kind)]
  | stringFieldRequired field location kind =>
    [("field", .str field), ("location", .str location), ("kind", .str kind)]
  | malformedSegment path => [("path", .str path)]
  | unknownPathField field path => [("field", .str field), ("path", .str path)]
  | duplicateOperation method path procedures =>
    [("method", .str method), ("path", .str path), ("procedures", .strings procedures)]
  | duplicateProcedure name => [("procedure", .str name)]
  | unsupportedMethod method => [("method", .str method)]

def report (v : Violation) : Report := v.rule.report v.details

end Violation

/-! ## Faults -/

/-- Why a name is none for a field. -/
inductive NameRefusal where
  /-- It begins with an underscore, and something is said of the field. -/
  | hidden
  /-- It is the name of the settings of a record. -/
  | settings
  /-- It belongs to every record. -/
  | taken
  /-- It is a word of the language in which records are put together. -/
  | word
  deriving DecidableEq

/-- Why an enumeration has no member of a name and a value. -/
inductive MemberRefusal where
  /-- Another member has the name. -/
  | repeated
  /-- No member may have the name. -/
  | unfitName
  /-- The value is of a sort that has no integers. -/
  | wrongSort
  /-- The value is no integer although its sort has some. -/
  | noInteger
  /-- The value lies beyond all integers. -/
  | boundless
  deriving DecidableEq

/-- Why a computation stops. -/
inductive Fault where
  /-- A rule is broken; `procedure` is the procedure in whose documentation it was found. -/
  | violation (v : Violation) (procedure : Option String)
  /-- A wrapper of the named kind wraps nothing. -/
  | nothingWrapped (kind : String)
  /-- A type of which nothing is known stands in a record. -/
  | unsupportedType
  /-- A bound is none that values of its type can be held to. -/
  | unfitBound
  /-- A field has both a default and a way to make one. -/
  | twoFallbacks
  /-- A field has a name that no field may have, or only with facts. -/
  | unfitName (refusal : NameRefusal)
  /-- A member of an enumeration has a name or a value that it may not have. -/
  | unfitMember (refusal : MemberRefusal)
  /-- A setting of a model is none of those that it may be. -/
  | unfitSetting
  /-- The settings of a model leave its fields no name under which a value is given. -/
  | namelessFields
  /-- A type is made of values, and there is none. -/
  | noValues
  /-- A default or a literal has no form as data. -/
  | unserializableValue
  /-- A default made of octets is not UTF-8. -/
  | undecodableOctets
  /-- A reference that someone wrote into a schema points nowhere. -/
  | unknownReference
  /-- A definition that a reference asks for is no object. -/
  | unmergeableDefinition
  /-- A reference that someone wrote is a list or an object, which cannot even be looked for. -/
  | unhashableReference
  /-- A reference that someone wrote is no text. -/
  | unreadableReference
  /-- The definitions are no collection of pairs. -/
  | unreadableDefinitions
  /-- The definitions are a list of things that are not all pairs. -/
  | unevenDefinitions
  deriving DecidableEq

/-- What is told of a fault, if it is a violation: with the procedure it was found in. -/
def Fault.report? : Fault → Option Report
  | .violation v none => some v.report
  | .violation v (some name) => some (v.report.addDetail "procedure" (.str name))
  | _ => none

/-- The message of a fault that is not a violation, where it has one. -/
def Fault.message? : Fault → Option String
  | .violation v _ => some v.report.message.inText
  | .nothingWrapped kind => some (kind ++ " 节点缺少 inner")
  | _ => none

/-- The fault, told of one procedure; only violations carry the name, and the first one stays. -/
def Fault.inProcedure (name : String) : Fault → Fault
  | .violation v none => .violation v (some name)
  | f => f

/-- The fault that a violation is where no procedure is known yet. -/
def Violation.fault (v : Violation) : Fault := .violation v none

end Procedoc
