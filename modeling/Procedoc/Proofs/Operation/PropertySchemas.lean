import Procedoc.Proofs.Operation.PropertyNames
import Procedoc.Proofs.Operation.Telling

/-! # Schemas of parameters and properties

A field is shown twice: as a parameter, whose schema is put together from the type of the field and the
facts about it, and as a property in the schema of the model.  `parameters_show_properties` is that
both are the same for each field that is told in full.

What a function adds to the schema of a field is no part of the parameter (`function_hides_entries`). -/
namespace Procedoc
set_option autoImplicit false
open Shaping (OutlinedAs)

/-! ## Fields with bounds only -/

theorem Field.holdsNoFacts_of_resolve? {name : String} {type : TypeExpr} {facts : Facts}
    {bounds : List Bound} {f : Field TypeExpr} (h : resolve? name type facts bounds = some f) :
    ∀ m ∈ f.marks, ∀ facts bs, m ≠ .field facts bs := by
  have hbounds : ∀ bounds, ∀ m ∈ boundMarks bounds, ∀ facts bs, m ≠ .field facts bs := by
    intro bounds m hm facts bs heq
    obtain ⟨b, -, rfl⟩ := List.mem_map.mp hm
    cases heq
  simp only [resolve?] at h
  split at h
  · cases h
  · obtain rfl := Option.some.inj h
    intro m hm
    have hm : m ∈ boundMarks bounds ++ type.unmarked.2.flatMap flatten := hm
    rw [List.mem_append, List.mem_flatMap] at hm
    rcases hm with hm | ⟨m', -, hm⟩
    · exact hbounds bounds m hm
    · cases m' with
      | field facts' bs' => exact hbounds bs' m hm
      | check moment =>
        obtain rfl : m = .check moment := List.mem_singleton.mp hm
        exact fun _ _ => Mark.noConfusion
      | bound b =>
        obtain rfl : m = .bound b := List.mem_singleton.mp hm
        exact fun _ _ => Mark.noConfusion

@[simp] theorem marks_underRule {α : Type} (rule : Option (String → String)) (f : Field α) :
    (f.underRule rule).marks = f.marks := by
  cases rule with
  | none => rfl
  | some rule =>
    simp only [Field.underRule]
    split <;> rfl

theorem Catalog.exists_bounds {ds : List Declaration} {es : List Enumeration} {c : Catalog}
    (h : Catalog.declare ds es = .ok c) : ∀ r ∈ c.models, ∀ f ∈ r.fields,
      (Mark.split f.marks).1 = [] → ∃ bounds : List Bound, f.marks = bounds.map Mark.bound := by
  have hnone := forall_fields (P := fun f => ∀ m ∈ f.marks, ∀ facts bs, m ≠ .field facts bs)
    (fun rule f hf => by rwa [marks_underRule]) (fun config d f hf => by
      obtain ⟨resolved, hresolved, fallback, rfl⟩ := d.exists_resolved hf
      have hnone := Field.holdsNoFacts_of_resolve? hresolved
      exact hnone) h
  intro r hr f hf hunchecked
  have hall : ∀ m ∈ f.marks, ∃ b, Mark.bound b = m := by
    intro m hm
    cases m with
    | field facts bs => exact absurd rfl (hnone r hr f hf _ hm facts bs)
    | bound b => exact ⟨b, rfl⟩
    | check moment =>
      have hcheck : Mark.check moment ∈ (Mark.split f.marks).1 := by
        rw [Mark.split, List.partition_eq_filter_filter]
        exact List.mem_filter.mpr ⟨hm, rfl⟩
      rw [hunchecked] at hcheck
      cases hcheck
  generalize f.marks = marks at hall
  clear hunchecked
  induction marks with
  | nil => exact ⟨[], rfl⟩
  | cons m rest ih =>
    rw [List.forall_mem_cons] at hall
    obtain ⟨⟨b, rfl⟩, hrest⟩ := hall
    obtain ⟨bounds, rfl⟩ := ih hrest
    exact ⟨b :: bounds, rfl⟩

/-! ## Parameters and properties -/

/-- A field whose property has a name of its own makes the property of that name. -/
theorem Field.exists_property {c : Catalog} {config : Config} {sealedAllowed : Bool}
    {fields : List (Field TypeExpr)} {os : List (Field Shape)} {ps : List Property}
    (hos : List.Forall₂ (OutlinedAs sealedAllowed) fields os)
    (hmake : Shape.MakeProperties c .input config os ps)
    (hside : Shape.sideIn config .input = .input) {f : Field TypeExpr} (hf : f ∈ fields)
    (hown : ∀ g ∈ fields, propertyName .input config g = propertyName .input config f → g = f) :
    ∃ o p, OutlinedAs sealedAllowed f o ∧
      (Shape.writeFields c .input config [o]).result {} = (.ok [p], {}) ∧
      Entries.get? (propertiesOf ps) (propertyName .input config f) = some (.obj p.schema) := by
  have hname {g : Field TypeExpr} {o : Field Shape} {p : Property} (hg : OutlinedAs sealedAllowed g o)
      (hp : (Shape.writeFields c .input config [o]).result {} = (.ok [p], {})) :
      p.name = propertyName .input config g := by
    obtain ⟨s, -, rfl⟩ := hg
    have hheads := Shape.heads_writeFields hp
    rw [hside] at hheads
    exact (Prod.mk.inj (List.cons.inj hheads).1).1
  obtain ⟨o, ho, hfo⟩ := Shaping.exists_of_forall₂ hos hf
  obtain ⟨p, hp, hop⟩ := Shaping.exists_of_forall₂ hmake ho
  refine ⟨o, p, hfo, hop, Entries.get?_ofList ?_ fun w hw => ?_⟩
  · exact List.mem_map.mpr ⟨p, hp, by rw [hname hfo hop]⟩
  · obtain ⟨p', hp', heq⟩ := List.mem_map.mp hw
    obtain ⟨hkey, rfl⟩ := Prod.mk.inj heq
    obtain ⟨o', ho', hop'⟩ := Shaping.exists_of_forall₂ hmake.flip hp'
    obtain ⟨g, hg, hgo'⟩ := Shaping.exists_of_forall₂ hos.flip ho'
    obtain rfl := hown g hg ((hname hgo' hop').symm.trans hkey)
    obtain ⟨s, hs, rfl⟩ := hfo
    obtain ⟨s', hs', rfl⟩ := hgo'
    obtain rfl := Except.ok.inj (hs.symm.trans hs')
    rw [hop] at hop'
    cases hop'
    rfl

/-- Whether no other field of a record hides a field, neither as a parameter nor as a property. -/
structure Record.SetsApart (r : Record TypeExpr) (f : Field TypeExpr) : Prop where
  mem : f ∈ r.fields
  key : ∀ g ∈ r.fields, g.key = f.key → g = f
  property : ∀ g ∈ r.fields,
    propertyName .input r.config g = propertyName .input r.config f → g = f

/-- The property that a told field makes has the schema of its parameter, but for the title. -/
theorem Field.IsTold.equal_property {c : Catalog} {config : Config} {sealedAllowed : Bool}
    {f : Field TypeExpr} {bounds : List Bound} (hf : f.IsTold c config)
    (hmarks : f.marks = bounds.map Mark.bound) {objectOf : String → Option Schema}
    (hkind : (Schema.ofField objectOf f).base.kind = .string) {j : Json}
    (hj : ((Schema.ofField objectOf f).render c .input).outcome = .ok j)
    (hside : Shape.sideIn config .input = .input) (hmin : Config.minLength? config = none)
    (hmax : Config.maxLength? config = none) {o : Field Shape} (ho : OutlinedAs sealedAllowed f o)
    {p : Property} (hp : (Shape.writeFields c .input config [o]).result {} = (.ok [p], {})) :
    Inert (.obj p.schema) ∧ ∀ kept pr, Json.sortedWithin kept (.obj p.schema) = .obj pr →
      j.equal (.obj (f.facts.untitled pr)) = true := by
  obtain ⟨s, hs, rfl⟩ := ho
  obtain rfl : s = Shape.boundText bounds := by
    rw [hf.type_eq hkind, hmarks] at hs
    exact Except.ok.inj (hs.symm.trans (Shaping.outlineMarks_boundText bounds))
  obtain ⟨e₀, h₀, hkeys⟩ : ∃ e₀, (Shape.boundText bounds).sketch c (fun _ => "") [] = .ok e₀ ∧
      ∀ k ∉ boundKeys, Entries.get? e₀ k = none :=
    Shape.IsBoundText.exists_sketch _ (Shape.isBoundText_boundText bounds)
  obtain ⟨shown, rfl, hshown, hparameter⟩ := hf.exists_shown hmarks hkind hj h₀ hkeys
  obtain ⟨-, hinert, hproperty⟩ :=
    hf.get?_property (Mark.inert_bounds (hmarks ▸ hf.inert.marks)) hside hmin hmax hp h₀
  exact ⟨hinert, fun _ _ hpr => Facts.equal_untitled hkeys
    (Fallback.get?_shownDefault_of_ne _ _ (by decide)) hshown hinert hpr hparameter hproperty⟩

section Schemas
variable {ds : List Declaration} {es : List Enumeration} {c : Catalog} {name : String}
  {r : Record TypeExpr}

theorem Record.SetsApart.borne (hr : c.model? name = some r) {template : String}
    {qs : List Parameter}
    (hqs : ((Source.type (.model name)).allParameters c template).outcome = .ok qs)
    {f : Field TypeExpr} (hf : r.SetsApart f) :
    (∃ q ∈ qs, q.name = f.key) ∧ ∀ q ∈ qs, q.name = f.key →
      q.Bears c template (f.key, Schema.ofField (Schema.objectOf c [name]) f) := by
  obtain ⟨hbears, hborne, -⟩ := bears_of_model hr hqs
  refine ⟨hborne f hf.mem, fun q hq hname => ?_⟩
  obtain ⟨g, hg, hb⟩ := hbears q hq
  obtain rfl := hf.key g hg (hb.name.symm.trans hname)
  exact hb

/-- The schema of a parameter is that of the property that the field makes, but for the title that the
property has from its name.  This holds of all fields that are told, in models that document what
inputs read, do not write over their properties, and set no lengths for all texts in them; and the
model has a schema where nothing in it reads as a reference.  Fields that others hide are to be texts
with defaults that decode. -/
theorem parameters_show_properties (h : Catalog.declare ds es = .ok c)
    (hr : c.model? name = some r)
    (hhidden : (r.fields.map Field.key).Nodup ∨ ∀ f ∈ r.fields, ∀ form, f.Decodes c form)
    (hside : Shape.sideIn r.config .input = .input)
    (hmin : Config.minLength? r.config = none) (hmax : Config.maxLength? r.config = none)
    (hextra : Entries.get? (Config.schemaEntries r.config) "properties" = none)
    {template : String} {qs : List Parameter}
    (hqs : ((Source.type (.model name)).allParameters c template).outcome = .ok qs) :
    (∀ j, ((Schema.ofModel c name).render c .input).outcome = .ok j →
      ∃ properties, j.get? "properties" = some (.obj properties) ∧
        ∀ f, r.SetsApart f → f.IsTold c r.config →
          (∃ q ∈ qs, q.name = f.key) ∧ ∀ q ∈ qs, q.name = f.key →
            ∃ pr, Entries.get? properties (propertyName .input r.config f) = some (.obj pr) ∧
              q.schema.equal (.obj (f.facts.untitled pr)) = true) ∧
      (r.IsInert c → Config.isWritable r.config = true →
        Entries.get? (Config.schemaEntries r.config) "$defs" = none →
          ∃ j, ((Schema.ofModel c name).render c .input).outcome = .ok j) := by
  have hdecodes := decodes_of_allParameters hr hhidden hqs
  have ht : r.IsTextual := fun f hf =>
    TypeExpr.IsText.mono (fun _ _ => trivial) f.type (hdecodes f hf {}).type
  refine ⟨fun j hj => ?_, fun hinert hwritable hdefs => ?_⟩
  · obtain ⟨os, ps, shown, rfl, hos, hmirrored, hmake⟩ := Catalog.mirrored_ofModel h hr ht hj
    obtain ⟨properties, hproperties, -, n, definitions, stack, hget⟩ :=
      hmirrored.mirrors_properties hextra
    refine ⟨properties, hproperties, fun f hapart htold => ?_⟩
    obtain ⟨hborne, hbears⟩ := hapart.borne hr hqs
    refine ⟨hborne, fun q hq hname => ?_⟩
    have hb := hbears q hq hname
    obtain ⟨bounds, hmarks⟩ := Catalog.exists_bounds h r (List.mem_of_find?_eq_some hr) f
      hapart.mem htold.unchecked
    obtain ⟨o, p, ho, hp, hfound⟩ := Field.exists_property (Shaping.outlineFields_eq_ok.mp hos)
      hmake hside hapart.mem hapart.property
    obtain ⟨hinert, hequal⟩ :=
      htold.equal_property hmarks hb.kind hb.carries.1 hside hmin hmax ho hp
    -- what refers to nothing is inlined as it is
    have hentry := hget (propertyName .input r.config f)
    rw [hfound, Option.map_some, n.data_of_inert hinert] at hentry
    rw [expand_of_selfContained _ _ (selfContained_of_inert (citesOnly_sortedWithin _ hinert))]
      at hentry
    obtain ⟨pr, hpr⟩ : ∃ pr, Json.sortedWithin (Json.keepsOrder (propertyName .input r.config f))
        (.obj p.schema) = .obj pr := ⟨_, sortedWithin_obj _ _⟩
    rw [hpr] at hentry
    exact ⟨pr, hentry, hequal _ _ hpr⟩
  · obtain ⟨os, Δ, s, env, ps, shown, -, hj, -⟩ := Catalog.shows_of_decodes h hr hinert hwritable
      hdefs hextra fun f hf => hdecodes f hf _
    exact ⟨_, hj⟩

end Schemas

/-! ## A contact -/

def contactModel : Declaration where
  name := "Contact"
  fields := [{
      name := "name"
      type := .str
      facts := {
        fallback := .value (.plain (.str "Ada"))
        outsideName := some "fullName"
        title := some "Full name"
        description := some "How to address the person."
        examples := some [.str "Grace"]
        deprecated := some (.flag true)
        extra := some (.entries [("x-order", .int 1)]) }
      bounds := [⟨.minLength, .int 1⟩] },
    { name := "note", type := .str }]

def contactCatalog : { c : Catalog // Catalog.declare [contactModel] [] = .ok c } :=
  ⟨_, eq_ok_getD {} (by decide +kernel)⟩

def contactName : Field TypeExpr where
  name := "name"
  type := .str
  marks := [.bound ⟨.minLength, .int 1⟩]
  facts := {
    fallback := .value (.plain (.str "Ada"))
    outsideName := some "fullName"
    readName := some (.single "fullName")
    writeName := some "fullName"
    title := some "Full name"
    description := some "How to address the person."
    examples := some [.str "Grace"]
    deprecated := some (.flag true)
    extra := some (.entries [("x-order", .int 1)]) }

def contact : Record TypeExpr where
  name := "Contact"
  fields := [contactName, { name := "note", type := .str }]

theorem model?_contact : contactCatalog.val.model? "Contact" = some contact := by
  have h := Catalog.models_of_declare contactCatalog.property
  rw [List.foldlM_cons, Declaration.onto_of_isFree contact.fields (by decide +kernel) rfl] at h
  rw [Catalog.model?, ← Except.ok.inj h]
  rfl

theorem inert_contactName : contactName.IsInert contactCatalog.val [] where
  type := by trivial
  marks m hm := by
    rw [List.mem_singleton.mp hm]
    exact citesOnly_int 1
  notes := by
    refine ⟨fun p hp => ?_, fun p hp => ?_⟩
    · have hall : contactName.facts.notes.updates = [("title", .str "Full name"),
          ("description", .str "How to address the person."), ("examples", .arr [.str "Grace"]),
          ("deprecated", .bool true)] := rfl
      rw [hall] at hp
      simp only [List.mem_cons, List.not_mem_nil, or_false] at hp
      rcases hp with rfl | rfl | rfl | rfl
      · exact ⟨by decide, inert_str (by decide)⟩
      · exact ⟨by decide, inert_str (by decide)⟩
      · exact ⟨by decide, citesOnly_arr.mpr
          (List.forall_mem_singleton.mpr (inert_str (by decide)))⟩
      · exact ⟨by decide, citesOnly_bool true⟩
    · rw [List.mem_singleton.mp hp]
      exact ⟨by decide, citesOnly_int 1⟩
  fallback v hv form j hj := by
    cases hv
    rw [Catalog.dataIn, Catalog.dataWith] at hj
    cases hj
    exact inert_str (by decide +kernel)
  name := by decide +kernel
  title := by decide +kernel
  enumerations := fun e he => absurd he List.not_mem_nil

theorem inert_contact : contact.IsInert contactCatalog.val where
  side := rfl
  config := fun _ hp => absurd hp List.not_mem_nil
  name := by decide
  doc := nofun
  fields f hf := by
    rcases List.mem_pair.mp hf with rfl | rfl
    · exact inert_contactName
    · exact .of_bare trivial (fun _ hm => absurd hm List.not_mem_nil) (fun e he => by cases he)
        (by decide) (by decide +kernel)

/-- The facts about the name of a contact are shown by its parameter as they are. -/
theorem told_contactName : contactName.IsTold contactCatalog.val [] where
  unmarked := nofun
  unchecked := rfl
  given := rfl
  usual := rfl
  facts := by
    refine ⟨by decide, by decide, by decide, by decide, nofun, fun e he => ?_⟩
    cases he
    rfl
  inert := inert_contactName

/-- The parameter for the name of a contact shows what its property shows. -/
theorem parameters_show_properties_contact :
    ∃ c r f qs j properties, Catalog.declare [contactModel] [] = .ok c ∧
      c.model? "Contact" = some r ∧ (r.fields.map Field.key).Nodup ∧
      Shape.sideIn r.config .input = .input ∧ Config.minLength? r.config = none ∧
      Config.maxLength? r.config = none ∧
      Entries.get? (Config.schemaEntries r.config) "properties" = none ∧
      ((Source.type (.model "Contact")).allParameters c "/contacts").outcome = .ok qs ∧
      ((Schema.ofModel c "Contact").render c .input).outcome = .ok j ∧
      r.SetsApart f ∧ f.IsTold c r.config ∧ f.facts.title = some "Full name" ∧
      j.get? "properties" = some (.obj properties) ∧ ∃ q ∈ qs, q.name = f.key ∧
        ∃ pr, Entries.get? properties (propertyName .input r.config f) = some (.obj pr) ∧
          q.schema.equal (.obj (f.facts.untitled pr)) = true := by
  have hkeys : (contact.fields.map Field.key).Nodup := by decide +kernel
  have hs : Schema.ofSource contactCatalog.val "input" (.type (.model "Contact")) = _ :=
    congrArg Except.ok (Schema.ofModel_of_nodup model?_contact hkeys)
  have hnamed : ∀ n ∈ Template.placeholders "/contacts", n ∈ Entries.keys
      (contact.fields.map fun f =>
        (f.key, Schema.ofField (Schema.objectOf contactCatalog.val ["Contact"]) f)) := by
    decide +kernel
  obtain ⟨qs, hqs⟩ := allParameters_isOk hs hnamed (by decide +kernel)
  obtain ⟨hshow, hrenders⟩ := parameters_show_properties contactCatalog.property model?_contact
    (.inl hkeys) rfl rfl rfl rfl hqs
  obtain ⟨j, hj⟩ := hrenders inert_contact rfl rfl
  obtain ⟨properties, hproperties, hall⟩ := hshow j hj
  have hapart : contact.SetsApart contactName := by
    refine ⟨List.mem_cons_self .., fun g hg hkey => ?_, fun g hg hname => ?_⟩
    · exact List.inj_on_of_nodup_map hkeys hg (List.mem_cons_self ..) hkey
    · have hnames : (contact.fields.map (propertyName .input contact.config)).Nodup := by
        decide +kernel
      exact List.inj_on_of_nodup_map hnames hg (List.mem_cons_self ..) hname
  obtain ⟨⟨q, hq, hname⟩, hequal⟩ := hall contactName hapart told_contactName
  exact ⟨contactCatalog.val, contact, contactName, qs, j, properties, contactCatalog.property,
    model?_contact, hkeys, rfl, rfl, rfl, rfl, hqs, hj, hapart, told_contactName, rfl, hproperties,
    q, hq, hname, hequal q hq hname⟩

/-! ## A field to which a function adds entries -/

def hookModel : Declaration where
  name := "M"
  fields := [{ name := "a", type := .str, facts := { extra := some .hook } }]

def hookCatalog : { c : Catalog // Catalog.declare [hookModel] [] = .ok c } :=
  ⟨_, eq_ok_getD {} (by decide +kernel)⟩

def hookField : Field TypeExpr := { name := "a", type := .str, facts := { extra := some .hook } }

def hookRecord : Record TypeExpr where
  name := "M"
  fields := [hookField]

theorem model?_hook : hookCatalog.val.model? "M" = some hookRecord := by
  have h := Catalog.models_of_declare hookCatalog.property
  rw [List.foldlM_cons, Declaration.onto_of_isFree hookRecord.fields (by decide +kernel) rfl] at h
  rw [Catalog.model?, ← Except.ok.inj h]
  rfl

def hookProperty : Entries Json :=
  [("title", .str "A"), ("type", .str "string"), ("x-callable", .bool true)]

def hookSchema :
    { e : Entries Json // hookCatalog.val.fragment .input (.model "M") = .ok e } :=
  ⟨[("properties", .obj [("a", .obj hookProperty)]), ("required", .arr [.str "a"]),
    ("title", .str "M"), ("type", .str "object")], by decide +kernel⟩

theorem inlined_hook : (inlined hookSchema.val).outcome = .ok (.obj hookSchema.val) := by cbv

def hookShown : { e : Entries Json // (Schema.ofField (Schema.objectOf hookCatalog.val ["M"])
    hookField).remarked hookCatalog.val .input = .ok e } :=
  ⟨typed "string", by decide +kernel⟩

theorem inlined_hookShown : (inlined hookShown.val).outcome = .ok (.obj hookShown.val) := by cbv

/-- A parameter lacks what a function adds to the schema of its field; the property has it. -/
theorem function_hides_entries :
    ∃ c r f qs q j properties pr, Catalog.declare [hookModel] [] = .ok c ∧ c.model? "M" = some r ∧
      r.SetsApart f ∧ (Mark.split f.marks).1 = [] ∧ f.facts.fallback.isNull = false ∧
      ((Source.type (.model "M")).allParameters c "/m").outcome = .ok qs ∧ q ∈ qs ∧ q.name = f.key ∧
      ((Schema.ofModel c "M").render c .input).outcome = .ok j ∧
      j.get? "properties" = some (.obj properties) ∧
      Entries.get? properties (propertyName .input r.config f) = some (.obj pr) ∧
      q.schema.equal (.obj (f.facts.untitled pr)) = false := by
  have hkeys : (hookRecord.fields.map Field.key).Nodup := by decide +kernel
  have hs : Schema.ofSource hookCatalog.val "input" (.type (.model "M")) = _ :=
    congrArg Except.ok (Schema.ofModel_of_nodup model?_hook hkeys)
  have hnamed : ∀ n ∈ Template.placeholders "/m", n ∈ Entries.keys (hookRecord.fields.map fun f =>
      (f.key, Schema.ofField (Schema.objectOf hookCatalog.val ["M"]) f)) := by
    decide +kernel
  obtain ⟨qs, hqs⟩ := allParameters_isOk hs hnamed (by decide +kernel)
  obtain ⟨q, hq, hbears⟩ := (bears_of_allParameters hs (by decide +kernel) hqs).2.1 _
    (List.mem_singleton_self _)
  have hapart : hookRecord.SetsApart hookField :=
    ⟨List.mem_singleton_self _, fun g hg _ => List.mem_singleton.mp hg,
      fun g hg _ => List.mem_singleton.mp hg⟩
  have hshown : q.schema = .obj hookShown.val :=
    Except.ok.inj (hbears.carries.1.symm.trans
      (Schema.render_eq_ok.mpr ⟨_, hookShown.property, inlined_hookShown⟩))
  refine ⟨hookCatalog.val, hookRecord, hookField, qs, q, .obj hookSchema.val,
    [("a", .obj hookProperty)], hookProperty, hookCatalog.property, model?_hook, hapart, rfl, rfl,
    hqs, hq, hbears.name, ?_, rfl, rfl, ?_⟩
  · rw [Schema.ofModel_eq model?_hook]
    exact (Schema.render_object (Schema.type_headOf _)).mpr
      ⟨_, hookSchema.property, inlined_hook⟩
  · rw [hshown]
    decide +kernel

end Procedoc
