import Procedoc.Proofs.Assembled.Fields
import Procedoc.Proofs.Assembled.Showing

/-! # What objects that are built by hand require

Whether a value may be left out is asked of a schema with all its wrappers; what the schema of an
object requires is decided where its fields make those of a record.  For fields that were read from
no model this looks at the outermost wrapper alone (`Schema.isRequired_of_field`).  So both give the
same answer except where a field may be left out because of what stands under a check, or because it
is an object that says so of itself (`object_requires_by_wrapper`, `checked_absence_is_required`). -/
namespace Procedoc
set_option autoImplicit false

namespace Schema

/-! ## Absence that is not said on the outside -/

/-- Whether a schema may be left out, but does not say so on the outside. -/
def HidesAbsence (s : Schema) : Prop :=
  s.isOptional = true ∧ (s.kind = .effect ∨ s.kind = .object)

theorem hidesAbsence_iff {s : Schema} :
    s.HidesAbsence ↔ s.isOptional = true ∧ s.fallback.isRequired = true := by
  refine and_congr_right fun h => ?_
  cases s with
  | text | other => cases h
  | object => exact ⟨fun _ => rfl, fun _ => .inr rfl⟩
  | wrapped w inner o =>
    cases w with
    | optional | default => simp [kind, Wrapper.kind, fallback, Fallback.isRequired]
    | effect => exact ⟨fun _ => rfl, fun _ => .inl rfl⟩

/-! ## Objects -/

/-- Whether a schema makes a field that is a property of its key and has no value that is made anew:
it was read from no model, its key is neither hidden nor that of a reference, and neither its marks
nor the settings give it another name. -/
structure IsPlainField (config : Config) (side : Side) (key : String) (s : Schema) : Prop where
  origin : s.origin = none
  visible : FieldName.isHidden key = false
  ordinary : definitionName? key = none
  named : ∀ f, s.field key = .ok f →
    propertyName (Shape.sideIn config side) config (f.underRule (Config.nameRule? config)) = key
  unmade : ∀ f, s.field key = .ok f → f.facts.fallback.made? = none

end Schema

/-- Whether settings leave it to the fields of a record what the record requires. -/
structure Config.LeavesRequired (config : Config) (side : Side) : Prop where
  required : Entries.get? (schemaEntries config) "required" = none
  reference : Entries.get? (schemaEntries config) "$ref" = none
  defaults : Shape.sideIn config side = .output → alwaysWritesDefaults config = false

namespace Config.LeavesRequired
variable {config : Config} {side : Side}

theorem isRequired_eq (h : config.LeavesRequired side) (f : Facts) :
    isRequired (Shape.sideIn config side) config f = f.fallback.isRequired := by
  rw [isRequired]
  cases hside : Shape.sideIn config side with
  | input => exact Bool.or_false _
  | output => simp [h.defaults hside]

end Config.LeavesRequired

section Objects
variable {c : Catalog} {side : Side} {config : Config} {head : Head} {fields : Entries Schema}

theorem exists_record_of_shown {o : Option (Field TypeExpr)} (hmodel : head.model = none)
    (hkeys : (Entries.keys fields).Nodup)
    (hfields : ∀ p ∈ fields, p.2.IsPlainField (head.config.getD []) side p.1) {e : Entries Json}
    (h : (Schema.object head fields o).shown c side = .ok e) : ∃ made,
      List.Forall₂ (fun p f => p.2.field p.1 = .ok f) fields made ∧
      c.fragment side (.record (Record.ofFields (orIfEmpty head.name "Input") head.description
        (head.config.getD []) made)) = .ok e := by
  rw [Schema.shown] at h
  · obtain ⟨a, ha, h⟩ := exists_of_bind_eq_ok h
    rw [Schema.type, hmodel] at ha
    obtain ⟨made, hmade, ha⟩ := exists_of_bind_eq_ok ha
    obtain ⟨r, hr, ha⟩ := exists_of_bind_eq_ok ha
    cases ha
    have hfield : List.Forall₂ (fun p f => p.2.field p.1 = .ok f) fields made :=
      ((List.forall₂_and_left _ _).mpr ⟨hfields, Schema.forall₂_of_fieldsOf hmade⟩).imp
        fun p f hpf => by
          have hf := hpf.2
          rwa [hpf.1.origin] at hf
    have hnames : made.map Field.name = Entries.keys fields :=
      (map_eq_map_of_forall₂ hfield fun p f hf => (Schema.name_of_field hf).1.symm).symm
    have hvisible : ∀ f ∈ made, FieldName.isHidden f.name = false := by
      intro f hf
      have hmem : f.name ∈ Entries.keys fields := hnames ▸ List.mem_map_of_mem hf
      obtain ⟨p, hp, hname⟩ := List.mem_map.mp hmem
      exact hname ▸ (hfields p hp).visible
    obtain rfl := Record.eq_ofFields_of_assemble hr (hnames ▸ hkeys) hvisible
    exact ⟨made, hfield, Catalog.fragmentFor_eq_ok.mp h⟩
  · exact fun w inner origin h => Schema.noConfusion h

/-- The required names of the record of fields are the keys of those that the outermost wrapper does
not let go. -/
theorem mem_requiredNames_of_mirrors (hkeys : (Entries.keys fields).Nodup)
    (hfields : ∀ p ∈ fields, p.2.IsPlainField config side p.1)
    (hconfig : config.LeavesRequired side) {made : List (Field TypeExpr)}
    (hmade : List.Forall₂ (fun p f => p.2.field p.1 = .ok f) fields made)
    {name : String} {doc : Option String} {ps : List Property}
    (hheads : (ps.map fun p => (p.name, p.isRequired)) =
      (Record.ofFields name doc config made).fields.map fun g =>
        (propertyName (Shape.sideIn config side) config g,
          isRequired (Shape.sideIn config side) config g.facts)) {shown : Entries Json}
    (h : Mirrors (recordEntries name doc config ps) shown) {p : String × Schema} (hp : p ∈ fields) :
    p.1 ∈ (Json.obj shown).requiredNames ↔ p.2.fallback.isRequired = true := by
  have hmap : (ps.map fun p => (p.name, p.isRequired)) =
      fields.map fun q => (q.1, q.2.fallback.isRequired) := by
    rw [hheads, Record.ofFields, List.map_map]
    refine (map_eq_map_of_forall₂ ((List.forall₂_and_left _ _).mpr ⟨hfields, hmade⟩) ?_).symm
    intro q f hqf
    obtain ⟨hq, hf⟩ := hqf
    simp only [Function.comp_apply]
    rw [hq.named f hf, hconfig.isRequired_eq, facts_underRule,
      Schema.isRequired_of_field hq.origin hf (hq.unmade f hf)]
  rw [h.mem_requiredNames hconfig.required (hfields p hp).ordinary, hmap, List.mem_map]
  constructor
  · rintro ⟨q, hq, heq⟩
    rw [Prod.mk.injEq] at heq
    obtain rfl := List.inj_on_of_nodup_map hkeys hq hp heq.1
    exact heq.2
  · exact fun hrequired => ⟨p, hp, by rw [hrequired]⟩

end Objects

/-! ## The theorem -/

/-- What the schema of an object without a model requires are the fields that may not be left out,
but that it also requires each field that hides that it may be.  This holds of all objects whose
fields were read from no model and are properties of their keys, whatever was documented before,
unless the settings or what is said of the object itself write over what it requires. -/
theorem object_requires_by_wrapper {ds : List Declaration} {es : List Enumeration} {c : Catalog}
    (hdeclare : Catalog.declare ds es = .ok c) (hc : c.NamesRecords) (before : List Procedure)
    {side : Side} {head : Head} {fields : Entries Schema} {o : Option (Field TypeExpr)}
    (hmodel : head.model = none) (hkeys : (Entries.keys fields).Nodup)
    (hfields : ∀ p ∈ fields, p.2.IsPlainField (head.config.getD []) side p.1)
    (hconfig : Config.LeavesRequired (head.config.getD []) side)
    (hremarks : ∀ f, o = some f →
      ∀ k ∈ ["required", "$ref", "$defs"], k ∉ Entries.keys f.facts.remarks) {j : Json}
    (hj : ((Schema.object head fields o).render (c.heedAll before) side).outcome = .ok j) :
    ∀ p ∈ fields,
      (p.2.HidesAbsence → p.1 ∈ j.requiredNames) ∧
      (¬ p.2.HidesAbsence → (p.1 ∈ j.requiredNames ↔ p.2.isOptional = false)) := by
  have hobeys := (hc.obeys hdeclare).of_same (Catalog.Same.heedAll c before)
  obtain ⟨e', he', hj⟩ := Schema.render_eq_ok.mp hj
  obtain ⟨e, he, rfl⟩ := Schema.remarked_eq_ok.mp he'
  obtain ⟨made, hmade, hfragment⟩ := exists_record_of_shown hmodel hkeys hfields he
  obtain ⟨ps, hwritten⟩ := Catalog.exists_written hobeys hconfig.reference hfragment
  have hown : ∀ k ∈ ["required", "$ref", "$defs"],
      k ∉ Entries.keys ((o.map fun f => f.facts.remarks).getD []) := by
    cases o with
    | none => exact fun _ _ => List.not_mem_nil
    | some f => exact hremarks f rfl
  obtain ⟨j', hj', hsame⟩ := (inlines_of_inlined hj).of_override hwritten.nodup
    (hown "$ref" (by decide)) (hown "$defs" (by decide))
  obtain ⟨shown, rfl, hmirrors⟩ := hwritten.mirrors j' hj'
  intro p hp
  have hrequired : p.1 ∈ j.requiredNames ↔ p.2.fallback.isRequired = true := by
    rw [Json.requiredNames, hsame "required" (hown "required" (by decide)), ← Json.requiredNames]
    exact mem_requiredNames_of_mirrors hkeys hfields hconfig hmade hwritten.heads hmirrors hp
  rw [hrequired]
  refine ⟨fun h => (Schema.hidesAbsence_iff.mp h).2, fun h => ?_⟩
  rw [Schema.hidesAbsence_iff] at h
  cases hf : p.2.fallback.isRequired with
  | false => simp [Schema.isOptional_of_fallback hf]
  | true => simpa [hf] using h

/-! ## A filter -/

/-- A name that may be left out, with a check that runs on it. -/
def checkedName : Schema := .checked (.optional (.text {} none)) [.check .after]

/-- The fields of a filter: a kind, the number of results, and a name. -/
def filterFields : Entries Schema :=
  [("kind", .text {} none), ("limit", .withDefault (.other { type := some (.plain .int) } none)
    (some (.plain (.int 10)))), ("name", checkedName)]

def filterHead : Head := { name := some "Filter" }

def filter : Schema := .object filterHead filterFields none

theorem isPlainField_filter :
    ∀ p ∈ filterFields, p.2.IsPlainField (filterHead.config.getD []) .input p.1 := by
  intro p hp
  simp only [filterFields, List.mem_cons, List.not_mem_nil, or_false] at hp
  rcases hp with rfl | rfl | rfl <;>
    exact ⟨rfl, by decide +kernel, by decide +kernel, fun f hf => by cases hf; rfl,
      fun f hf => by cases hf; rfl⟩

def filterSchema : { e : Entries Json // filter.shown {} .input = .ok e } :=
  ⟨[("properties", .obj [("kind", .obj [("title", .str "Kind"), ("type", .str "string")]),
      ("limit", .obj [("default", .int 10), ("title", .str "Limit"), ("type", .str "integer")]),
      ("name", .obj [("anyOf", .arr [.obj [("type", .str "string")], .obj [("type", .str "null")]]),
        ("title", .str "Name")])]),
    ("required", .arr [.str "kind", .str "name"]), ("title", .str "Filter"),
    ("type", .str "object")], by decide +kernel⟩

theorem render_filter : (filter.render {} .input).outcome = .ok (.obj filterSchema.val) :=
  Schema.render_eq_ok.mpr
    ⟨filterSchema.val, Schema.remarked_eq_ok.mpr ⟨_, filterSchema.property, rfl⟩, by cbv⟩

/-- A filter requires a kind, and no number of results; its name hides that it may be left out. -/
theorem object_requires_by_wrapper_filter :
    Catalog.declare [] [] = .ok {} ∧ Catalog.NamesRecords {} ∧
    filterHead.model = none ∧ (Entries.keys filterFields).Nodup ∧
    (∀ p ∈ filterFields, p.2.IsPlainField (filterHead.config.getD []) .input p.1) ∧
    Config.LeavesRequired (filterHead.config.getD []) .input ∧
    ((Schema.object filterHead filterFields none).render (Catalog.heedAll {} []) .input).outcome =
      .ok (.obj filterSchema.val) ∧
    ∀ p ∈ filterFields,
      (p.2.HidesAbsence → p.1 ∈ (Json.obj filterSchema.val).requiredNames) ∧
      (¬ p.2.HidesAbsence →
        (p.1 ∈ (Json.obj filterSchema.val).requiredNames ↔ p.2.isOptional = false)) := by
  have hdeclare : Catalog.declare [] [] = .ok {} := rfl
  have hrecords : Catalog.NamesRecords {} := fun _ h => by cases h
  have hkeys : (Entries.keys filterFields).Nodup := by decide +kernel
  have hconfig : Config.LeavesRequired (filterHead.config.getD []) .input :=
    ⟨rfl, rfl, fun h => by cases h⟩
  exact ⟨hdeclare, hrecords, rfl, hkeys, isPlainField_filter, hconfig, render_filter,
    object_requires_by_wrapper hdeclare hrecords [] rfl hkeys isPlainField_filter hconfig
      (fun _ h => by cases h) render_filter⟩

/-- A name that may be left out is required where a check runs on it. -/
theorem checked_absence_is_required :
    (filter.render {} .input).outcome = .ok (.obj filterSchema.val) ∧
    ∃ p ∈ filterFields,
      ¬ (p.1 ∈ (Json.obj filterSchema.val).requiredNames ↔ p.2.isOptional = false) := by
  refine ⟨render_filter, ("name", checkedName), by simp [filterFields], ?_⟩
  rw [show (Json.obj filterSchema.val).requiredNames = ["kind", "name"] from rfl,
    show checkedName.isOptional = true from rfl]
  simp

end Procedoc
