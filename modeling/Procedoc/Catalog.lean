import Procedoc.DataForm
import Procedoc.Layout

/-! # Catalogs

A catalog holds the models and enumerations that types may name, with what is known of them so far:
the layouts of the models that are worked out, and remarks on models that contain themselves.

`Catalog.data` is the data that a value is written as.
-/

namespace Procedoc
set_option autoImplicit false

/-- What was said about models at the references that are shared. -/
abbrev Remarks := List (Anchor × Notes)

namespace Remarks

def about (r : Remarks) (anchor : Anchor) : Notes := (r.lookup anchor).getD .empty

def has (r : Remarks) (anchor : Anchor) : Bool := !(r.about anchor).isEmpty

/-- Adds notes to what was said at a reference. -/
def add (anchor : Anchor) (notes : Notes) : Remarks → Remarks
  | [] => [(anchor, notes)]
  | p :: rest =>
    if p.1 = anchor then (anchor, p.2.merge notes) :: rest else p :: add anchor notes rest

end Remarks

/-- The models and enumerations that types may name. -/
structure Catalog where
  models : List (Record TypeExpr) := []
  enumerations : List Enumeration := []
  /-- The layouts of the models that are worked out. -/
  layouts : Entries Layout := []
  /-- What was said about models that contain themselves; the references that are shared show it. -/
  remarks : Remarks := []
  deriving Inhabited

namespace Catalog

def model? (c : Catalog) (name : String) : Option (Record TypeExpr) :=
  c.models.find? fun r => r.name = name

def enumeration? (c : Catalog) (name : String) : Option Enumeration :=
  c.enumerations.find? fun e => e.name = name

/-- The value of a member of an enumeration. -/
def memberData (c : Catalog) (enumeration member : String) : Json :=
  (((c.enumeration? enumeration).bind fun e => Entries.get? e.members member)).getD .null

def configOf (c : Catalog) (name : String) : Config :=
  ((c.model? name).map Record.config).getD []

/-! ## Walks through models

A walk that opens no model twice ends: each step leaves fewer models to open.
-/

def unseen (c : Catalog) (seen : List String) : List (Record TypeExpr) :=
  c.models.filter fun r => !seen.contains r.name

/-- The model of a name, unless it was seen before. -/
def open? (c : Catalog) (seen : List String) (name : String) : Option (Record TypeExpr) :=
  if seen.contains name then none else c.model? name

theorem length_unseen_lt {c : Catalog} {seen : List String} {name : String}
    {r : Record TypeExpr} (h : c.open? seen name = some r) :
    (c.unseen (name :: seen)).length < (c.unseen seen).length := by
  simp only [open?] at h
  split at h
  · cases h
  · rename_i hs
    have hr : r ∈ c.models := List.mem_of_find?_eq_some h
    have hn : r.name = name := by simpa using List.find?_some h
    have heq : c.unseen (name :: seen) = (c.unseen seen).filter fun r => r.name != name := by
      simp only [unseen, List.filter_filter]
      congr 1
      funext x
      by_cases hx : x.name = name <;> simp [hx]
    rw [heq]
    apply Nat.lt_of_le_of_ne (List.length_filter_le _ _)
    intro e
    have hall := List.length_filter_eq_length_iff.mp e
    have hm : r ∈ c.unseen seen := by
      simp only [unseen, List.mem_filter]
      exact ⟨hr, by simpa [hn] using hs⟩
    simpa [hn] using hall r hm

/-! ## Data of values -/

mutual
/-- The data that a value is written as; `recordData` completes the fields of an instance. -/
def dataWith (c : Catalog) (recordData : String → Entries Json → Except Fault Json)
    (form : DataForm) : Value → Except Fault Json
  | .plain j => .ok j
  | .many _ items => do return .arr (← dataOfList c recordData form items)
  | .dict entries => do return .obj (← dataOfEntries c recordData form entries)
  | .member enumeration name => .ok (c.memberData enumeration name)
  | .octets bytes => form.octets.write bytes
  | .date day => .ok (form.moments.write day)
  | .record model given => do
    recordData model (← dataOfEntries c recordData (Config.dataForm (c.configOf model)) given)
  | .sealed => .error .unserializableValue

def dataOfList (c : Catalog) (recordData : String → Entries Json → Except Fault Json)
    (form : DataForm) : List Value → Except Fault (List Json)
  | [] => .ok []
  | v :: rest => do
    let j ← dataWith c recordData form v
    return j :: (← dataOfList c recordData form rest)

def dataOfEntries (c : Catalog) (recordData : String → Entries Json → Except Fault Json)
    (form : DataForm) : List (String × Value) → Except Fault (Entries Json)
  | [] => .ok []
  | (k, v) :: rest => do
    let j ← dataWith c recordData form v
    return (k, j) :: (← dataOfEntries c recordData form rest)
end

/-- The data of a field of an instance: what was given for it, or else its default. -/
def fieldData (defaultData : Value → Except Fault Json) (given : Entries Json)
    (f : Field TypeExpr) : Except Fault (String × Json) := do
  let own := (Entries.get? given f.name).or (Entries.get? given (f.known.readProperty f.name))
  let data ← match own, f.facts.fallback with
    | some j, _ => pure j
    | none, .value d | none, .made d => defaultData d
    | none, .required => pure Json.null
  return (f.known.writeProperty f.name, data)

/-- The data of an instance of a model with all fields of the model.  A default holds instances of
models that were declared before only, so that the number of models limits how deep they go. -/
def recordDataWithin (c : Catalog) : Nat → String → Entries Json → Except Fault Json
  | 0, _, given => .ok (.obj given)
  | depth + 1, model, given =>
    match c.model? model with
    | none => .ok (.obj given)
    | some r => do
      let form := Config.dataForm r.config
      let fields ← r.fields.mapM
        (fieldData (dataWith c (recordDataWithin c depth) form) given)
      return .obj fields

/-- The data that a value is written as, in a form. -/
def dataIn (c : Catalog) (form : DataForm) (v : Value) : Except Fault Json :=
  dataWith c (recordDataWithin c (c.models.length + 1)) form v

def data (c : Catalog) (v : Value) : Except Fault Json := c.dataIn {} v

@[simp] theorem data_plain (c : Catalog) (j : Json) : c.data (.plain j) = .ok j := by
  simp [data, dataIn, dataWith]

end Catalog
end Procedoc
