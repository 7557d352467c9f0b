import Procedoc.Config
import Procedoc.Fault
import Procedoc.Value

/-! # Names of fields

Not every name may be that of a field.  A name that begins with an underscore is no field at all;
some names belong to every record; and where a record is put together on the spot, some are words
that tell how.

`FieldName.declared` and `FieldName.assembled` tell what becomes of a field under its name.
-/

namespace Procedoc
set_option autoImplicit false

/-- What becomes of a field under its name. -/
inductive Standing where
  /-- It is a field like any other. -/
  | free
  /-- It is no field. -/
  | hidden
  /-- It is a field whose default is what every record has under the name. -/
  | held (value : Value)

namespace FieldName

/-- The names under which every record has functions. -/
def functions : List String := [
  "model_construct", "model_copy", "model_dump", "model_dump_json", "model_extra",
  "model_fields_set", "model_json_schema", "model_parametrized_name", "model_post_init",
  "model_rebuild", "model_validate", "model_validate_json", "model_validate_strings", "mro",
  "register"]

/-- The names under which every record has its fields. -/
def listings : List String := ["model_computed_fields", "model_fields"]

/-- What every record has under names that fields should not use. -/
def belonging? (name : String) : Option Value :=
  if functions.contains name then some .sealed
  else if listings.contains name then some (.dict [])
  else none

/-- How names begin that no field may share with a belonging of every record. -/
def reserved (config : Config) : List String :=
  match Config.given? config "protected_namespaces" with
  | some (.arr items) => items.filterMap Json.text?
  | _ => ["model_validate", "model_dump"]

/-- Whether a name belongs to every record and must not be shared. -/
def isTaken (config : Config) (name : String) : Bool :=
  (belonging? name).isSome && (reserved config).any fun start => name.startsWith start

def settings : String := "model_config"

def isHidden (name : String) : Bool := name.startsWith "_"

/-- The word for a record that consists of one field. -/
def rootWord : String := "__root__"

/-- The words that tell how a record is put together. -/
def words : List String := [
  "__annotations__", "__base__", "__cls_kwargs__", "__config__", "__doc__", "__qualname__",
  "__slots__", "__validators__", rootWord]

/-- What becomes of a declared field; `isBare` tells that nothing is said of it but its type. -/
def declared (config : Config) (isBare : Bool) (name : String) : Except NameRefusal Standing :=
  if name = rootWord then .error .word
  else if isHidden name then (if isBare then .ok .hidden else .error .hidden)
  else if name = settings then .error (if isBare then .settings else .word)
  else if isTaken config name then .error .taken
  else
    match belonging? name with
    | some value => .ok (if isBare then .held value else .free)
    | none => .ok .free

/-- What becomes of a field of a record that is put together on the spot; `isRequired` tells that it
has no default. -/
def assembled (config : Config) (isRequired : Bool) (name : String) :
    Except NameRefusal Standing :=
  if words.contains name then .error .word
  else if isHidden name then .ok .hidden
  else if name = settings then .error (if isRequired then .word else .settings)
  else if isTaken config name then .error .taken
  else .ok .free

end FieldName
end Procedoc
