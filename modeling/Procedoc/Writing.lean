import Procedoc.Catalog
import Procedoc.Sheet
import Procedoc.Text.Doc
import Procedoc.Text.Label

/-! # Writing shapes

`Shape.write` is the schema of a shape.  Records and enumerations in it become definitions on a
sheet, and the schema refers to them.  The parts of a schema have functions of their own:
`plainEntries` for built-in types, `valueSet`, `listOf`, `tupleOf`, `mappingOf` and `anyOf` for what
is put together, `propertyEntries` and `recordEntries` for records.
-/

namespace Procedoc
set_option autoImplicit false

/-! ## Types without parts -/

def typed (name : String) : Entries Json := [("type", .str name)]

def formatted (name format : String) : Entries Json :=
  [("type", .str name), ("format", .str format)]

/-- The schema of lists of items. -/
def listOf (item : Json) (unique : Bool) : Entries Json :=
  let base : Entries Json := [("type", .str "array"), ("items", item)]
  if unique then Entries.put base "uniqueItems" (.bool true) else base

/-- The schema of texts with bounds; the lengths that hold for every text in a model stand in where
the bounds name none. -/
def textEntries (config : Config) (bounds : List Bound) : Entries Json :=
  let own := typed "string" ++ Grip.text.shown bounds
  let lengths : List (String × Option Json) :=
    [("minLength", Config.minLength? config), ("maxLength", Config.maxLength? config)]
  own ++ lengths.filterMap fun (key, limit) =>
    if Entries.has own key then none else limit.map fun l => (key, l)

/-- The schema of moments of a sort, which may be written as numbers. -/
def momentEntries (config : Config) (format : String) : Entries Json :=
  if (Config.dataForm config).moments = .text then formatted "string" format else typed "number"

/-- The schema of a built-in type without bounds, if it has one. -/
def Plain.entries? (config : Config) : Plain → Option (Entries Json)
  | str => some (textEntries config [])
  | int => some (typed "integer")
  | float => some (typed "number")
  | bool => some (typed "boolean")
  | none => some (typed "null")
  | any | object => some []
  | bytes => some (formatted "string"
      (if (Config.dataForm config).octets = .base64 then "base64url" else "binary"))
  | date => some (momentEntries config "date")
  | datetime => some (momentEntries config "date-time")
  | time => some (momentEntries config "time")
  | uuid => some (formatted "string" "uuid")
  | list | tuple => some (listOf (.obj []) false)
  | set | frozenset => some (listOf (.obj []) true)
  | dict => some [("type", .str "object"), ("additionalProperties", .bool true)]
  | callable | sealed => Option.none

def plainEntries (config : Config) (p : Plain) (bounds : List Bound) : Writing (Entries Json) :=
  match p, p.entries? config with
  | .str, _ => return textEntries config bounds
  | _, some e => return Entries.override e (p.grip.shown bounds)
  | _, none => throw .indescribable

/-! ## Sets of values -/

/-- The name of the JSON type of values of a sort, where schemas name it. -/
def Json.typeName? : Json → Option String
  | null => some "null"
  | bool _ => some "boolean"
  | int _ => some "integer"
  | decimal _ | unbounded _ => some "number"
  | str _ => some "string"
  | arr _ => some "array"
  | obj _ => none

/-- The entry for the JSON type that all values have, if they share one. -/
def commonType (values : List Json) : Entries Json :=
  match values with
  | [] => []
  | j :: rest =>
    match j.typeName? with
    | some name => if rest.all fun k => k.typeName? = some name then typed name else []
    | none => []

def valueSet (values : List Json) : Entries Json :=
  match values with
  | [j] => ("const", j) :: commonType values
  | _ => ("enum", .arr values) :: commonType values

/-- The description that stands for none. -/
def emptyDescription : String := "An enumeration."

/-- The definition of an enumeration.  Values that are all null have no type. -/
def Enumeration.definition (e : Enumeration) : Entries Json :=
  let doc := (Text.describedBy e.doc).filter (· != emptyDescription)
  [("enum", .arr e.values), ("title", .str e.name)]
    ++ (doc.map fun d => ("description", Json.str d)).toList
    ++ (commonType e.values).filter fun p => p.2 != .str "null"

/-! ## Containers -/

/-- Whether the items of a container are distinct. -/
def Container.isDistinct : Container → Bool
  | list | tuple => false
  | set | frozenset => true

/-- The schema of a tuple of fixed length. -/
def tupleOf (items : List (Entries Json)) : Entries Json :=
  let lengths : Entries Json := [("minItems", .int items.length), ("maxItems", .int items.length)]
  if items.isEmpty then ("type", .str "array") :: lengths
  else ("type", .str "array") :: ("prefixItems", .arr (items.map .obj)) :: lengths

/-- The schema of a mapping.  A pattern on the keys goes over the values; what else the keys have to
keep is said of property names. -/
def mappingOf (key value : Entries Json) : Entries Json :=
  let isRef := Entries.has key "$ref"
  let pattern := if isRef then none else Entries.get? key "pattern"
  let names := if isRef then key else Entries.withoutAll key ["pattern", "title"]
  let values := Entries.without value "title"
  let contents : String × Json := match pattern with
    | some (.str p) => ("patternProperties", .obj [(p, .obj values)])
    | _ =>
      if values.isEmpty then ("additionalProperties", .bool true)
      else ("additionalProperties", .obj values)
  let isConstrained := Entries.get? names "type" == some (.str "string") && names.length > 1
  if isConstrained || isRef then
    [("type", .str "object"), contents, ("propertyNames", .obj (Entries.without names "type"))]
  else [("type", .str "object"), contents]

/-! ## Unions -/

/-- The schema of the absence of a value. -/
def nullSchema : Json := .obj [("type", .str "null")]

/-- The alternatives that a schema stands for: those of a bare union, or itself. -/
def alternativesOf : Json → List Json
  | .obj [("anyOf", .arr items)] => items
  | j => [j]

/-- The schema of what one of several schemas describes. -/
def anyOf (schemas : List (Entries Json)) : Entries Json :=
  match Json.distinct ((schemas.map Json.obj).flatMap alternativesOf) with
  | [j] => j.entries
  | js => [("anyOf", .arr js)]

/-- The schema of the members of a union; one by itself is that member. -/
def unionEntries : List (Entries Json) → Entries Json
  | [e] => e
  | es => anyOf es

/-- The schema of what a schema describes, or null. -/
def orNull (schema : Entries Json) : Entries Json :=
  if (Json.obj schema).equal nullSchema then schema else anyOf [schema, nullSchema.entries]

/-! ## Records -/

/-- The data of a value. -/
def writtenData (c : Catalog) (config : Config) (v : Value) : Writing Json :=
  match c.dataIn (Config.dataForm config) v with
  | .ok j => return j
  | .error .undecodableOctets => throw .undecodable
  | .error _ => throw .unserializable

/-- A schema with a default that is the same each time; one without a form as data is left out. -/
def withDefault (c : Catalog) (config : Config) (f : Fallback) (e : Entries Json) :
    Writing (Entries Json) :=
  match f.value? with
  | none => return e
  | some v =>
    tryCatch (do return Entries.put e "default" (← writtenData c config v)) fun
      | .unserializable => return e
      | o => throw o

/-- The name of the property of a field. -/
def propertyName (side : Side) (config : Config) {α : Type} (f : Field α) : String :=
  match side with
  | .input => if Config.readsOutsideNames config then f.known.readProperty f.name else f.name
  | .output => f.known.writeProperty f.name

/-- Whether a property has to be present. -/
def isRequired (side : Side) (config : Config) (f : Facts) : Bool :=
  f.fallback.isRequired || (side == .output && Config.alwaysWritesDefaults config)

/-- The schema of a property: what its type shows, its default, what is said about the field, and a
title from its name where nothing else gives one. -/
def propertyEntries (c : Catalog) (config : Config) (f : Facts) (property : String)
    (wantsTitle : Bool) (shown : Entries Json) : Writing (Entries Json) := do
  let e := f.notes.onto (← withDefault c config f.fallback shown)
  Writing.withoutEchoes
    (if wantsTitle && !Entries.has e "title" then
      Entries.put e "title" (.str (Text.label property))
    else e)

/-- A property of a record: its name, whether it has to be present, and its schema. -/
structure Property where
  name : String
  isRequired : Bool
  schema : Entries Json

/-- The schema of a record with some properties. -/
def recordEntries (name : String) (doc : Option String) (config : Config)
    (properties : List Property) : Entries Json :=
  let required := (properties.filter Property.isRequired).map Property.name
  let optionally (key : String) (value : Option Json) : Entries Json :=
    (value.map fun v => (key, v)).toList
  let own : Entries Json :=
    [("properties", .obj (Entries.ofList (properties.map fun p => (p.name, .obj p.schema))))]
      ++ (if required.isEmpty then [] else [("required", .strings required)])
      ++ [("title", (Config.title? config).getD (.str name)), ("type", .str "object")]
      ++ optionally "description" ((Text.describedBy doc).map .str)
      ++ optionally "additionalProperties" ((Config.letsInOthers? config).map .bool)
  Entries.override own (Config.schemaEntries config)

/-! ## Shapes -/

namespace Shape

/-- Whether a property of this shape gets a title from its name. -/
def wantsTitle : Shape → Bool
  | record _ _ | enumeration _ _ | reference _ | shared _ => false
  | nullable inner | guarded inner | defaulted inner _ | noted inner _ => wantsTitle inner
  | _ => true

/-- The side that a schema is for inside a model. -/
def sideIn (config : Config) (asked : Side) : Side := (Config.side? config).getD asked

mutual
/-- The schema of a shape inside a model with settings, for the side that is asked for. -/
def write (c : Catalog) (asked : Side) (config : Config) : Shape → Writing (Entries Json)
  | plain p bounds => plainEntries config p bounds
  | literal values => do return valueSet (← values.mapM (writtenData c []))
  | container k item bounds => do
    let shown := listOf (.obj (← write c asked config item)) k.isDistinct
    return Entries.override shown (Grip.items.shown bounds)
  | tuple items bounds => do
    return Entries.override (tupleOf (← writeAll c asked config items)) (Grip.items.shown bounds)
  | dict k v bounds => do
    let key ← write c asked config k
    let shown := mappingOf key (← write c asked config v)
    return Entries.override shown (Grip.mapping.shown bounds)
  | union members => do return unionEntries (← writeSome c asked config members)
  | nullable inner => do return orNull (← write c asked config inner)
  | guarded inner => write c asked config inner
  | replaced _ bare =>
    match sideIn config asked with
    | .input => return []
    | .output => write c asked config bare
  | concealed =>
    match sideIn config asked with
    | .input => return []
    | .output => throw .indescribable
  | chained inner pattern =>
    match sideIn config asked with
    | .input => write c asked config inner
    | .output => return textEntries config [⟨.pattern, pattern⟩]
  | defaulted inner fallback => do
    withDefault c config fallback (← write c asked config inner)
  | reference key => Writing.reference key (sideIn config asked)
  | shared anchor => do
    let e ← Writing.reference (.model anchor.model) (sideIn config asked)
    return (c.remarks.about anchor).onto e
  | record key ⟨name, doc, own, fields⟩ =>
    Writing.entity key (sideIn config asked) do
      let properties ← writeFields c asked own fields
      if Config.isWritable own then return recordEntries name doc own properties
      else throw .unfitSetting
  | enumeration key e => Writing.entity key (sideIn config asked) (return e.definition)
  | noted inner notes => do return notes.onto (← write c asked config inner)

/-- The schemas of all shapes of a list. -/
def writeAll (c : Catalog) (asked : Side) (config : Config) :
    List Shape → Writing (List (Entries Json))
  | [] => return []
  | s :: rest => do
    let e ← write c asked config s
    return e :: (← writeAll c asked config rest)

/-- The schemas of the shapes of a list that have one. -/
def writeSome (c : Catalog) (asked : Side) (config : Config) :
    List Shape → Writing (List (Entries Json))
  | [] => return []
  | s :: rest => do
    let e ← Writing.attempt (write c asked config s)
    return e.toList ++ (← writeSome c asked config rest)

/-- The properties that fields make. -/
def writeFields (c : Catalog) (asked : Side) (config : Config) :
    List (Field Shape) → Writing (List Property)
  | [] => return []
  | ⟨name, s, marks, facts, ruled⟩ :: rest => do
    let side := sideIn config asked
    let property := propertyName side config (⟨name, (), marks, facts, ruled⟩ : Field Unit)
    let shown ← write c asked config s
    let schema ← propertyEntries c config facts property s.wantsTitle shown
    return ⟨property, isRequired side config facts, schema⟩
      :: (← writeFields c asked config rest)
end

end Shape

/-- Writes definitions.  One that nothing describes is marked: what refers to it has no schema. -/
def writeDefinitions (c : Catalog) (asked : Side) : Definitions → Writing Unit
  | [] => return ()
  | (key, s) :: rest => do
    match ← Writing.attempt (s.write c asked []) with
    | some _ => pure ()
    | none =>
      let label ← Writing.label key asked
      modify fun sheet => { sheet with broken := label :: sheet.broken }
    writeDefinitions c asked rest

/-- The schema of a layout; its definitions are on the sheet. -/
def Layout.write (c : Catalog) (asked : Side) (l : Layout) : Writing (Entries Json) := do
  writeDefinitions c asked l.definitions
  l.top.write c asked []

end Procedoc
